import Deed.Typeck.Facts

/-!
# Reading expressions against the facts

How `facts.rs` reads an expression: as a sum of counted terms and an offset
(`linear`), as a range (`rangeOf`), and, when it is a condition, as settled or
not (`holds`).  The first two call each other on the same expression, so they
are one recursion on the size of the expression.

What a call promises and what a clause says about its arguments is declared
here because `intervalOf` reads it; how a promise is worked out from a clause
is the matter of `Deed.Typeck.Promise`.
-/

namespace Deed.Typeck

open Deed.Ast Deed.Library

/-- Why a condition came back unsettled. -/
inductive Reason where
  | nothingNarrowedThisName
  | nothingEstablishedThisLength
  | nothingNamesThisValue
  | crossedAModuleBoundary
  | notAShapeTheCheckerReasonsAbout
  | nothingTriesToProveThis
  | theCallerInstallsTheHandler
deriving DecidableEq, Repr

/-- What a condition worked out to, when it worked out at all. -/
inductive Truth where
  | always
  | never
  | unknown (reason : Reason)
deriving DecidableEq, Repr

namespace Truth

def of (value : Bool) : Truth := if value then .always else .never

def negate : Truth → Truth
  | .always => .never
  | .never => .always
  | .unknown reason => .unknown reason

def and : Truth → Truth → Truth
  | .never, _ => .never
  | _, .never => .never
  | .always, .always => .always
  | .unknown reason, _ => .unknown reason
  | _, .unknown reason => .unknown reason

def or : Truth → Truth → Truth
  | .always, _ => .always
  | _, .always => .always
  | .never, .never => .never
  | .unknown reason, _ => .unknown reason
  | _, .unknown reason => .unknown reason

end Truth

/-! ## Promises -/

/-- The range of `result - factor * argument`. -/
structure Scaled where
  factor : Int64
  range : Range
deriving DecidableEq, Repr

/-- What a call promises about the value it hands back. -/
structure Guarantee where
  range : Range
  offsets : List (Nat × Scaled) := []
deriving DecidableEq, Repr

namespace Guarantee

def of (range : Range) : Guarantee := ⟨range, []⟩

def any : Guarantee := of .any

/-- Where the result lands, given a range for each argument. -/
def landing (guarantee : Guarantee) (args : List Range) : Range :=
  guarantee.offsets.foldl
    (fun range (index, scaled) =>
      match args[index]? with
      | none => range
      | some arg =>
          range.meet ((arg.times scaled.factor).shift scaled.range))
    guarantee.range

@[simp]
theorem landing_of (range : Range) (args : List Range) :
    (of range).landing args = range := rfl

end Guarantee

/-- What a call promises, and which value it is about. -/
structure Promise where
  value : Guarantee
  ok : Guarantee
deriving DecidableEq, Repr

def Promise.any : Promise := ⟨.any, .any⟩

/-- What the fact machinery needs that it cannot read off the syntax. -/
structure Env where
  /-- The definition an identifier refers to. -/
  defOf : Expr → Option DefId
  /-- The `length` the language provides, when it is in scope. -/
  length : Option DefId
  /-- What a call to this callee promises. -/
  call : Expr → Promise
  /-- What the declared type of this expression admits. -/
  refined : Expr → Range

/-- An environment that knows nothing. -/
def Env.blind : Env where
  defOf _ := none
  length := none
  call _ := .any
  refined _ := .any

/-! ## Terms -/

/-- Whether an expression is a call to the `length` the language provides. -/
def isLengthCall (callee : Expr) (args : List Expr) (env : Env) : Bool :=
  env.length.isSome && args.length == 1 && env.defOf callee == env.length

/-- Whether an expression is the `value` a refinement predicate is about. -/
def isSubject : Expr → Bool
  | .ident name => name.name == "value"
  | _ => false

/-- Whether an expression is `length(value)`. -/
def isSubjectLength (expr : Expr) (env : Env) : Bool :=
  match expr with
  | .call callee args _ =>
      isLengthCall callee args env && args.head?.any isSubject
  | _ => false

/-- The term `value` stands for in a predicate, when it stands for one. -/
def subjectTerm (expr : Expr) (facts : Facts) (env : Env) : Option Term :=
  match facts.subject.bind Subject.name with
  | none => none
  | some name =>
      if isSubject expr then some (.name name)
      else if isSubjectLength expr env then some (.length name)
      else none

/-- What the predicate is asking about `value`, for a subject with no name. -/
def subjectRange (expr : Expr) (facts : Facts) (env : Env) : Option Range :=
  match facts.subject with
  | none => none
  | some subject =>
      if isSubject expr then some subject.range
      else if isSubjectLength expr env then some subject.length
      else none

/-- The term an expression is, when a fact can be attached to it. -/
def termOf (expr : Expr) (env : Env) : Option Term :=
  match expr with
  | .ident _ => (env.defOf expr).map .name
  | .call callee args _ =>
      if isLengthCall callee args env then
        match args.head? with
        | some (.ident name) => (env.defOf (.ident name)).map .length
        | _ => none
      else none
  | _ => none

/-- What is known about how long something is. -/
def lengthOf (expr : Expr) (facts : Facts) (env : Env) : Range :=
  match expr with
  | .list elements _ => .exactly (Int64.ofNat elements.length)
  | .str value _ => .exactly (Int64.ofNat value.length)
  | _ =>
      match termOf expr env with
      | some (.name def_) => facts.get (.length def_)
      | _ => .between 0 Int64.maxValue

/-! ## Linear forms -/

/-- An expression rewritten as terms counted, and a range. -/
structure Linear where
  /-- How many of each term, a zero count dropped rather than kept. -/
  terms : List (Term × Int64)
  offset : Range
deriving DecidableEq, Repr

namespace Linear

def constant (offset : Range) : Linear := ⟨[], offset⟩

def name (term : Term) : Linear := ⟨[(term, 1)], .exactly 0⟩

/-- Every count multiplied, when each is still a word. -/
def scaleTerms (factor : Int64) :
    List (Term × Int64) → Option (List (Term × Int64))
  | [] => some []
  | (term, count) :: rest => do
      let scaled ← checked (count.toInt * factor.toInt)
      let others ← scaleTerms factor rest
      if scaled ≠ 0 then some ((term, scaled) :: others) else some others

/-- The same form with every count multiplied, when that is a number. -/
def scale (form : Linear) (factor : Int64) : Option Linear := do
  let terms ← scaleTerms factor form.terms
  some ⟨terms, form.offset.mul (.exactly factor)⟩

def negate (form : Linear) : Linear :=
  (form.scale (-1)).getD (constant .any)

/-- The single number this is, when it is one. -/
def constantValue (form : Linear) : Option Int64 :=
  if form.terms ≠ [] then none
  else
    match form.offset with
    | .bounded low high => if low = high then some low else none
    | .empty => none

/-- One count added in; a name on both sides cancels. -/
def addTerm (terms : List (Term × Int64)) (entry : Term × Int64) :
    List (Term × Int64) :=
  let total :=
    saturate (((Assoc.find? terms entry.1).getD 0).toInt + entry.2.toInt)
  if total = 0 then Assoc.erase terms entry.1
  else Assoc.insert terms entry.1 total

def add (left right : Linear) : Linear where
  terms := right.terms.foldl addTerm left.terms
  offset := left.offset.add right.offset

/-- One form scaled by the number the other is. -/
def product (left right : Linear) : Option Linear :=
  match left.constantValue, right.constantValue with
  | some factor, none => right.scale factor
  | none, some factor => left.scale factor
  -- two constants the interval multiplies, two names nothing can
  | _, _ => none

theorem product_cases {left right form : Linear}
    (found : left.product right = some form) :
    (∃ factor, left.constantValue = some factor ∧
      right.scale factor = some form) ∨
    (∃ factor, right.constantValue = some factor ∧
      left.scale factor = some form) := by
  unfold product at found
  split at found
  · next factor constant _ => exact Or.inl ⟨factor, constant, found⟩
  · next factor _ constant => exact Or.inr ⟨factor, constant, found⟩
  · cases found

/-- One step of the search for a positive and a negative term. -/
def pairStep (found : Option (Option Term × Option Term))
    (entry : Term × Int64) : Option (Option Term × Option Term) :=
  match found with
  | none => none
  | some (positive, negative) =>
      if entry.2 = 1 ∧ positive = none then some (some entry.1, negative)
      else if entry.2 = -1 ∧ negative = none then some (positive, some entry.1)
      else none

/-- The pair this is the difference of, when it is the difference of a pair. -/
def pair (form : Linear) : Option (Term × Term) :=
  match form.terms.foldl pairStep (some (none, none)) with
  | some (some positive, some negative) => some (positive, negative)
  | _ => none

/-- The pair this is the total of, when it is the total of a pair. -/
def total (form : Linear) : Option (Term × Term) :=
  match form.terms.filter fun entry => entry.2 = 1 with
  | first :: second :: _ =>
      if form.terms.length = 2 then some (first.1, second.1) else none
  | _ => none

/-- The one term in this, and how many of it, when there is exactly one. -/
def scaledName (form : Linear) : Option (Term × Int64) :=
  match form.terms with
  | [entry] => some entry
  | _ => none

end Linear

/-! ## Ranges of expressions -/

/-- `+` and `-` are the only shapes that can reduce to a difference or a total. -/
def isSum : Expr → Bool
  | .binary .add _ _ _ => true
  | .binary .sub _ _ _ => true
  | _ => false

mutual

/-- Reads `expr` as terms and an offset, as far as it goes. -/
def linear (facts : Facts) (env : Env) (expr : Expr) : Linear :=
  match subjectTerm expr facts env with
  | some term => .name term
  | none =>
      match subjectRange expr facts env with
      | some range => .constant range
      | none =>
          match expr with
          | .ident name =>
              match termOf (.ident name) env with
              | some term => .name term
              | none => .constant (intervalOf facts env (.ident name))
          | .call callee args span =>
              match termOf (.call callee args span) env with
              | some term => .name term
              | none => .constant (intervalOf facts env (.call callee args span))
          | .unary .neg operand _ => (linear facts env operand).negate
          | .binary .add lhs rhs _ =>
              (linear facts env lhs).add (linear facts env rhs)
          | .binary .sub lhs rhs _ =>
              (linear facts env lhs).add (linear facts env rhs).negate
          | .binary .mul lhs rhs span =>
              ((linear facts env lhs).product (linear facts env rhs)).getD
                (.constant (intervalOf facts env (.binary .mul lhs rhs span)))
          | other => .constant (intervalOf facts env other)
termination_by (sizeOf expr, 1)

/-- What the recorded differences and totals add to a sum. -/
def related (facts : Facts) (env : Env) (expr : Expr) : Option Range :=
  if isSum expr then
    let form := linear facts env expr
    match form.pair with
    | some (a, b) => some ((facts.difference a b).add form.offset)
    | none =>
        match form.total with
        | some (a, b) => some ((facts.total a b).add form.offset)
        | none => none
  else none
termination_by (sizeOf expr, 2)

/-- The range an expression can take, from the ranges of its terms alone. -/
def intervalOf (facts : Facts) (env : Env) (expr : Expr) : Range :=
  match subjectTerm expr facts env with
  | some term =>
      match subjectRange expr facts env with
      | some range => (facts.get term).meet range
      | none => facts.get term
  | none =>
      match subjectRange expr facts env with
      | some range => range
      | none =>
          match expr with
          | .int value _ => .exactly value
          | .field receiver name span =>
              match (Expr.field receiver name span).intLimit with
              | some value => .exactly value
              | none => env.refined (.field receiver name span)
          | .ident name =>
              match termOf (.ident name) env with
              | some term => facts.get term
              | none => .any
          | .call callee args _ =>
              let promised :=
                (env.call callee).value.landing
                  (args.map fun arg => rangeOf facts env arg)
              if isLengthCall callee args env then
                match args.head? with
                | some held => promised.meet (lengthOf held facts env)
                | none => promised
              else promised
          | .try (.call callee args _) _ =>
              (env.call callee).ok.landing
                (args.map fun arg => rangeOf facts env arg)
          | .unary .neg operand _ => (rangeOf facts env operand).negate
          | .binary op lhs rhs _ =>
              let left := rangeOf facts env lhs
              let right := rangeOf facts env rhs
              match op with
              | .add => left.add right
              | .sub => left.sub right
              | .mul => left.mul right
              | _ => .any
          | _ => .any
termination_by (sizeOf expr, 0)

/-- The range an expression can take, given what is known. -/
def rangeOf (facts : Facts) (env : Env) (expr : Expr) : Range :=
  let interval := intervalOf facts env expr
  match related facts env expr with
  | some range => interval.meet range
  | none => interval
termination_by (sizeOf expr, 3)

end

attribute [grind =] linear intervalOf

/-! ### One shape at a time -/

section Shapes

variable {facts : Facts} {env : Env}

/-- Only a name and a call can be the subject of a predicate. -/
def isAtom : Expr → Bool
  | .ident _ => true
  | .call _ _ _ => true
  | _ => false

theorem subjectTerm_of_not_atom {expr : Expr} (shape : isAtom expr = false) :
    subjectTerm expr facts env = none := by
  unfold subjectTerm
  cases facts.subject.bind Subject.name with
  | none => rfl
  | some name => cases expr <;> first | rfl | cases shape

theorem subjectRange_of_not_atom {expr : Expr} (shape : isAtom expr = false) :
    subjectRange expr facts env = none := by
  unfold subjectRange
  cases facts.subject with
  | none => rfl
  | some subject => cases expr <;> first | rfl | cases shape

@[simp]
theorem linear_neg (operand : Expr) (span : Span) :
    linear facts env (.unary .neg operand span) =
      (linear facts env operand).negate := by
  rw [linear, subjectTerm_of_not_atom rfl, subjectRange_of_not_atom rfl]

@[simp]
theorem linear_add (lhs rhs : Expr) (span : Span) :
    linear facts env (.binary .add lhs rhs span) =
      (linear facts env lhs).add (linear facts env rhs) := by
  rw [linear, subjectTerm_of_not_atom rfl, subjectRange_of_not_atom rfl]

@[simp]
theorem linear_sub (lhs rhs : Expr) (span : Span) :
    linear facts env (.binary .sub lhs rhs span) =
      (linear facts env lhs).add (linear facts env rhs).negate := by
  rw [linear, subjectTerm_of_not_atom rfl, subjectRange_of_not_atom rfl]

theorem linear_mul (lhs rhs : Expr) (span : Span) :
    linear facts env (.binary .mul lhs rhs span) =
      ((linear facts env lhs).product (linear facts env rhs)).getD
        (.constant (intervalOf facts env (.binary .mul lhs rhs span))) := by
  rw [linear, subjectTerm_of_not_atom rfl, subjectRange_of_not_atom rfl]

/-- A name or a call is the subject, a term, or its own interval. -/
theorem linear_atom {expr : Expr} (shape : isAtom expr = true) :
    linear facts env expr =
      match subjectTerm expr facts env with
      | some term => .name term
      | none =>
          match subjectRange expr facts env with
          | some range => .constant range
          | none =>
              match termOf expr env with
              | some term => .name term
              | none => .constant (intervalOf facts env expr) := by
  cases expr with
  | ident name => rw [linear]
  | call callee args span => rw [linear]
  | _ => cases shape

/-- Outside a predicate a name that is a term is its own form. -/
theorem linear_term {expr : Expr} {term : Term} (noSubject : facts.subject = none)
    (shape : isAtom expr = true) (read : termOf expr env = some term) :
    linear facts env expr = .name term := by
  rw [linear_atom shape, read, subjectTerm, subjectRange, noSubject]
  rfl

/-- The shapes `linear` takes apart. -/
def isArithmetic : Expr → Bool
  | .unary .neg _ _ => true
  | .binary .add _ _ _ => true
  | .binary .sub _ _ _ => true
  | .binary .mul _ _ _ => true
  | _ => false

theorem linear_other {expr : Expr} (atom : isAtom expr = false)
    (arithmetic : isArithmetic expr = false) :
    linear facts env expr = .constant (intervalOf facts env expr) := by
  unfold linear
  rw [subjectTerm_of_not_atom atom, subjectRange_of_not_atom atom]
  simp only
  split <;> first
    | rfl
    | exact Bool.noConfusion atom
    | exact Bool.noConfusion arithmetic

/-- A literal is its own form. -/
theorem linear_int (value : Int64) (span : Span) :
    linear facts env (.int value span) = .constant (.exactly value) := by
  rw [linear_other rfl rfl, intervalOf.eq_def, subjectTerm_of_not_atom rfl,
    subjectRange_of_not_atom rfl]

end Shapes

/-- Where the result of a promised call lands, given its arguments. -/
def Guarantee.applied (guarantee : Guarantee) (args : List Expr)
    (facts : Facts) (env : Env) : Range :=
  guarantee.landing (args.map (rangeOf facts env))

/-- The range the value inside the `ok` of `expr` lands in. -/
def okRangeOf (expr : Expr) (facts : Facts) (env : Env) : Range :=
  match expr with
  | .call callee args _ => (env.call callee).ok.applied args facts env
  | _ => .any

/-- `left - right` as a linear form. -/
def differenceForm (left right : Expr) (facts : Facts) (env : Env) : Linear :=
  (linear facts env left).add (linear facts env right).negate

/-- The range `left - right` falls in, using what is known about the pair. -/
def differenceOf (left right : Expr) (facts : Facts) (env : Env) : Range :=
  let spread := (rangeOf facts env left).spread (rangeOf facts env right)
  let form := differenceForm left right facts env
  match form.pair with
  | some (a, b) => spread.meet ((facts.difference a b).shift form.offset)
  | none => spread

/-! ## Conditions -/

/-- What to blame when a comparison did not settle. -/
def unresolvedComparison (lhs rhs : Expr) (env : Env) : Reason :=
  match termOf lhs env, termOf rhs env with
  | some (.length _), _ => .nothingEstablishedThisLength
  | _, some (.length _) => .nothingEstablishedThisLength
  | some (.name _), _ => .nothingNarrowedThisName
  | _, some (.name _) => .nothingNarrowedThisName
  | none, none => .nothingNamesThisValue

/-- Which side of zero `low ..= high` is on, as far as `op` asks. -/
def settled (op : BinaryOp) (low high : Int64) (unclear : Truth) : Truth :=
  match op with
  | .lt => if high < 0 then .always else if low ≥ 0 then .never else unclear
  | .le => if high ≤ 0 then .always else if low > 0 then .never else unclear
  | .gt => if low > 0 then .always else if high ≤ 0 then .never else unclear
  | .ge => if low ≥ 0 then .always else if high < 0 then .never else unclear
  | .eq =>
      if low = 0 ∧ high = 0 then .always
      else if low > 0 ∨ high < 0 then .never
      else unclear
  | _ => .unknown .notAShapeTheCheckerReasonsAbout

/-- `compare` for every operator but `!=`, which asks for `==`. -/
def compareSigns (op : BinaryOp) (lhs rhs : Expr) (facts : Facts) (env : Env) :
    Truth :=
  if rangeOf facts env lhs = .empty ∨ rangeOf facts env rhs = .empty then
    .never
  else
    match (differenceOf lhs rhs facts env).bounds with
    | none => .never
    | some (low, high) =>
        settled op low high (.unknown (unresolvedComparison lhs rhs env))

/-- Whether `left op right` holds, which is a question about `left - right`. -/
def compare (op : BinaryOp) (lhs rhs : Expr) (facts : Facts) (env : Env) :
    Truth :=
  if op = .ne then
    if rangeOf facts env lhs = .empty ∨ rangeOf facts env rhs = .empty then
      .never
    else
      match (differenceOf lhs rhs facts env).bounds with
      | none => .never
      | some _ => (compareSigns .eq lhs rhs facts env).negate
  else compareSigns op lhs rhs facts env

/-- Whether a condition holds, given what is known. -/
def holds (facts : Facts) (env : Env) : Expr → Truth
  | .bool value _ => .of value
  | .unary .not operand _ => (holds facts env operand).negate
  | .binary .and lhs rhs _ => (holds facts env lhs).and (holds facts env rhs)
  | .binary .or lhs rhs _ => (holds facts env lhs).or (holds facts env rhs)
  | .binary op lhs rhs _ => compare op lhs rhs facts env
  | _ => .unknown .notAShapeTheCheckerReasonsAbout

end Deed.Typeck
