import Deed.Typeck.Narrowing

/-!
# What a predicate admits

`value` in a refinement and `result` in an `ensures` clause stand for the thing that is
described.  `admittedBy` reads what such a condition pins down about it: the range it lands in,
and how long it can be.
-/

namespace Deed.Typeck

open Deed.Ast Deed.Library

/-- Which half of the subject a comparison is about. -/
inductive About where
  | value
  | length
deriving DecidableEq, Repr

section Subject

variable (env : Env) (subject : String)

def namesSubject : Expr → Bool
  | .ident name => name.name == subject
  | _ => false

/-- Which half of the subject an expression is, when it is one. -/
def aboutOf (expr : Expr) : Option About :=
  if namesSubject subject expr then some .value
  else
    match expr with
    | .call callee args _ =>
        if isLengthCall callee args env && args.head?.any (namesSubject subject) then some .length
        else none
    | _ => none

/-- The range that a comparison against a range pins its left side to. -/
def boundedBy (op : BinaryOp) (low high : Int64) : Option Range :=
  match op with
  | .lt =>
      match checked (high.toInt - 1) with
      | some bound => some (.between Int64.minValue bound)
      | none => some .empty
  | .le => some (.between Int64.minValue high)
  | .gt =>
      match checked (low.toInt + 1) with
      | some bound => some (.between bound Int64.maxValue)
      | none => some .empty
  | .ge => some (.between low Int64.maxValue)
  | .eq => some (.between low high)
  | _ => none

/-- The subject with one half of it narrowed. -/
def Subject.narrow (current : Subject) (about : About) (narrowed : Range) : Subject :=
  match about with
  | .value => { current with range := current.range.meet narrowed }
  | .length => { current with length := current.length.meet narrowed }

/-- What a comparison tells of the subject, when its left side is the subject. -/
def narrowSubject (op : BinaryOp) (left right : Expr) (facts : Facts) : Facts :=
  match aboutOf env subject left with
  | none => facts
  | some about =>
      match (rangeOf facts env right).bounds with
      | none => facts
      | some (low, high) =>
          match boundedBy op low high with
          | none => facts
          | some narrowed =>
              { facts with
                subject := some ((facts.subject.getD (.of .any)).narrow about narrowed) }

/-- One comparison, read from both sides. -/
def compareSubject (op : BinaryOp) (lhs rhs : Expr) (facts : Facts) : Facts :=
  let facts := narrowSubject env subject op lhs rhs facts
  match flipped op with
  | some flipped => narrowSubject env subject flipped rhs lhs facts
  | none => facts

/-- The same walk as `applyNarrowing`, for a subject with no definition. -/
def applySubjectNarrowing : Expr → Facts → Bool → Facts
  | .unary .not operand _, facts, whenTrue => applySubjectNarrowing operand facts (!whenTrue)
  | .binary .and lhs rhs _, facts, true =>
      applySubjectNarrowing rhs (applySubjectNarrowing lhs facts true) true
  | .binary op lhs rhs _, facts, whenTrue =>
      match if whenTrue then some op else negated op with
      | some effective => compareSubject env subject effective lhs rhs facts
      | none => facts
  | _, facts, _ => facts

end Subject

/-- Everything a refinement predicate admits about the thing it describes. -/
def admittedBy (predicate : Expr) (env : Env) : Subject :=
  (applySubjectNarrowing env "value" predicate Facts.new true).subject.getD (.of .any)

/-- The range a refinement predicate admits. -/
def rangeAdmittedBy (predicate : Expr) : Range := (admittedBy predicate Env.blind).range

/-- The range a condition pins its subject to, reading nothing else. -/
def rangeOfSubject (condition : Expr) (subject : String) : Range :=
  match (applySubjectNarrowing Env.blind subject condition Facts.new true).subject with
  | some subject => subject.range
  | none => .any

/-! ## What a predicate says of a value -/

/-- What a predicate describes: an `Int`, or a `String` or a list by its length. -/
inductive Described where
  | int (value : Int64)
  | counted (length : Int64) (nonneg : 0 ≤ length.toInt)

section Values

-- What names and calls come to.
variable (atom : Expr → Option Int64)

/-- The value of a quantity under checked arithmetic. -/
def quantity : Expr → Option Int64
  | .int value _ => some value
  | .ident name => atom (.ident name)
  | .call callee args span => atom (.call callee args span)
  | .field receiver name span => (Expr.field receiver name span).intLimit
  | .unary .neg operand _ => do
      let value ← quantity operand
      checked (-value.toInt)
  | .binary op lhs rhs _ => do
      let left ← quantity lhs
      let right ← quantity rhs
      match op with
      | .add => checked (left.toInt + right.toInt)
      | .sub => checked (left.toInt - right.toInt)
      | .mul => checked (left.toInt * right.toInt)
      | .div => if right = 0 then none else checked (left.toInt.tdiv right.toInt)
      | .rem =>
          if right = 0 ∨ (left = Int64.minValue ∧ right = -1) then none
          else checked (left.toInt.tmod right.toInt)
      | _ => none
  | _ => none

/-- Whether a comparison holds of two integers, when it is a comparison. -/
def comparison (op : BinaryOp) (left right : Int64) : Option Bool :=
  match op with
  | .eq => some (left = right)
  | .ne => some (left ≠ right)
  | .lt => some (left < right)
  | .le => some (left ≤ right)
  | .gt => some (right < left)
  | .ge => some (right ≤ left)
  | _ => none

/-- The value of a predicate; `&&` and `||` stop at the first side that settles them. -/
def predicate : Expr → Option Bool
  | .bool value _ => some value
  | .unary .not operand _ => (predicate operand).map not
  | .binary .and lhs rhs _ => do
      if ← predicate lhs then predicate rhs else some false
  | .binary .or lhs rhs _ => do
      if ← predicate lhs then some true else predicate rhs
  | .binary op lhs rhs _ => do
      let left ← quantity atom lhs
      let right ← quantity atom rhs
      comparison op left right
  | _ => none

end Values

/-- A reading of names and calls in which the subject is what is described. -/
structure Reads (env : Env) (subject : String) (described : Described)
    (atom : Expr → Option Int64) : Prop where
  /-- The name of the subject is the number described. -/
  named : ∀ name x, name.name = subject → atom (.ident name) = some x → described = .int x
  /-- A call is one for the length of the subject. -/
  call : ∀ callee args span x, atom (.call callee args span) = some x →
    isLengthCall callee args env = true ∧
      ∃ name nonneg, args = [.ident name] ∧ name.name = subject ∧ described = .counted x nonneg
  /-- What is read has no definition of its own. -/
  unnamed : ∀ expr x, atom expr = some x → termOf expr env = none

/-- What is described is inside what a predicate admits, and nothing admitted is empty. -/
def Described.Inside (described : Described) (admitted : Subject) : Prop :=
  admitted.range ≠ .empty ∧ admitted.length ≠ .empty ∧
    match described with
    | .int value => value.toInt ∈ admitted.range
    | .counted length _ => length.toInt ∈ admitted.length

/-! ## Where a bound is read as it is -/

section Plain

variable (env : Env) (subject : String) (atom : Expr → Option Int64)

/-- Nothing is clamped and nothing else taken for the subject where a quantity is read: no
`Int.min` is subtracted, and a name `value` is the subject. -/
def Plain : Expr → Prop
  | .ident name => name.name = "value" → subject = "value"
  | .unary .neg operand _ => Plain operand
  | .binary op lhs rhs _ =>
      Plain lhs ∧ Plain rhs ∧ (op = .sub → quantity atom rhs ≠ some Int64.minValue)
  | _ => True

/-- What stands across from the subject in a comparison is plain, wherever a bound is read from
one. -/
def PlainBounds : Expr → Bool → Prop
  | .unary .not operand _, whenTrue => PlainBounds operand (!whenTrue)
  | .binary .and lhs rhs _, true => PlainBounds lhs true ∧ PlainBounds rhs true
  | .binary op lhs rhs _, whenTrue =>
      -- nothing is read from an inequality
      (if whenTrue then some op else negated op) ≠ some .ne →
        ((aboutOf env subject lhs).isSome → Plain subject atom rhs) ∧
          ((aboutOf env subject rhs).isSome → Plain subject atom lhs)
  | _, _ => True

end Plain

end Deed.Typeck
