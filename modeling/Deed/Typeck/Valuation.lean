import Deed.Typeck.Reading

/-!
# What the facts are about

A valuation gives every term an `i64`, and through it an expression a value
under checked arithmetic and a condition a boolean.  The shapes read here are
the ones the prover reasons about: names, lengths of names, literals and the
two limits, `-`, `+`, `*`, comparisons, and the short-circuiting connectives.
Every other shape has no value.

`Facts.Admits` is the meaning of the tables: what it takes for a valuation to
be one of the states the recorded facts leave possible.
-/

namespace Deed.Typeck

open Deed.Ast Deed.Library

/-- An `i64` for each term, and for the `value` a predicate is about. -/
structure Valuation where
  term : Term → Int64
  subject : Int64
  subjectLength : Int64
  length_nonneg : ∀ def_, 0 ≤ (term (.length def_)).toInt

/-- A state in which everything is empty has no negative length. -/
theorem zero_length_nonneg (_ : DefId) : 0 ≤ (0 : Int64).toInt := le_rfl

/-- Whether a comparison holds of two integers, when it is a comparison. -/
def compareInts (op : BinaryOp) (left right : Int) : Option Bool :=
  match op with
  | .eq => some (left = right)
  | .ne => some (left ≠ right)
  | .lt => some (left < right)
  | .le => some (left ≤ right)
  | .gt => some (left > right)
  | .ge => some (left ≥ right)
  | _ => none

namespace Valuation

variable (v : Valuation) (subject : Option Subject) (env : Env)

/-- The value of a name or of a length, the subject of a predicate first. -/
def atom (expr : Expr) : Option Int64 :=
  if subject.isSome && isSubject expr then some v.subject
  else if subject.isSome && isSubjectLength expr env then some v.subjectLength
  else (termOf expr env).map v.term

/-- The value of an expression under checked arithmetic. -/
def int : Expr → Option Int64
  | .int value _ => some value
  | .ident name => v.atom subject env (.ident name)
  | .call callee args span => v.atom subject env (.call callee args span)
  | .field receiver name span => (Expr.field receiver name span).intLimit
  | .unary .neg operand _ => do
      let value ← int operand
      checked (-value.toInt)
  | .binary .add lhs rhs _ => do
      let left ← int lhs
      let right ← int rhs
      checked (left.toInt + right.toInt)
  | .binary .sub lhs rhs _ => do
      let left ← int lhs
      let right ← int rhs
      checked (left.toInt - right.toInt)
  | .binary .mul lhs rhs _ => do
      let left ← int lhs
      let right ← int rhs
      checked (left.toInt * right.toInt)
  | _ => none

/-- The value of a condition; `&&` and `||` stop at the first side that
settles them. -/
def bool : Expr → Option Bool
  | .bool value _ => some value
  | .unary .not operand _ => (bool operand).map not
  | .binary .and lhs rhs _ => do
      if ← bool lhs then bool rhs else some false
  | .binary .or lhs rhs _ => do
      if ← bool lhs then some true else bool rhs
  | .binary op lhs rhs _ => do
      let left ← v.int subject env lhs
      let right ← v.int subject env rhs
      compareInts op left.toInt right.toInt
  | _ => none

/-- A comparison has a value when both sides do. -/
theorem comparison_values {subject : Option Subject} {env : Env}
    {op : BinaryOp} {lhs rhs : Expr} {span : Span} {actual : Bool}
    (notAnd : op ≠ .and) (notOr : op ≠ .or)
    (value : v.bool subject env (.binary op lhs rhs span) = some actual) :
    ∃ x, v.int subject env lhs = some x ∧ ∃ y,
      v.int subject env rhs = some y ∧
        compareInts op x.toInt y.toInt = some actual := by
  rw [bool] at value
  · simpa only [Option.bind_eq_bind, Option.bind_eq_some_iff] using value
  · exact notAnd
  · exact notOr

end Valuation

/-- The difference of two terms, which need not be an `i64`. -/
def Valuation.gap (v : Valuation) (a b : Term) : Int :=
  (v.term a).toInt - (v.term b).toInt

/-- The total of two terms, which need not be one either. -/
def Valuation.total (v : Valuation) (a b : Term) : Int :=
  (v.term a).toInt + (v.term b).toInt

/-- A state the recorded facts leave possible.  The range of a term and of the
subject hold its value; the range of a difference or of a total only has to
allow it. -/
structure Facts.Admits (facts : Facts) (v : Valuation) : Prop where
  term : ∀ term, (v.term term).toInt ∈ facts.get term
  recordedDifference : ∀ a b range,
    facts.differences.find? (a, b) = some range → range.Allows (v.gap a b)
  recordedTotal : ∀ a b range,
    facts.totals.find? (a, b) = some range → range.Allows (v.total a b)
  subject : ∀ subject, facts.subject = some subject →
    v.subject.toInt ∈ subject.range ∧ v.subjectLength.toInt ∈ subject.length
  named : ∀ subject def_, facts.subject = some subject →
    subject.name = some def_ →
      v.subject = v.term (.name def_) ∧ v.subjectLength = v.term (.length def_)

theorem Valuation.mem_unrecorded (v : Valuation) (term : Term) :
    (v.term term).toInt ∈ Facts.unrecorded term := by
  cases term with
  | name def_ => exact inI64_toInt _
  | length def_ =>
      exact Range.mem_between.2 ⟨v.length_nonneg def_, (inI64_toInt _).2⟩

/-- Nothing recorded rules nothing out. -/
theorem Facts.new_admits (v : Valuation) : Facts.new.Admits v where
  term := v.mem_unrecorded
  recordedDifference _ _ _ absent := nomatch absent
  recordedTotal _ _ _ absent := nomatch absent
  subject _ absent := nomatch absent
  named _ _ absent := nomatch absent

theorem Facts.Admits.difference {facts : Facts} {v : Valuation}
    (admits : facts.Admits v) (a b : Term) :
    (facts.difference a b).Allows (v.gap a b) := by
  unfold Facts.difference
  split
  · next same =>
      subst same
      exact Range.Allows.of_mem (Range.mem_exactly.2 (sub_self _))
  · cases found : facts.differences.find? (a, b) with
    | none => exact Range.any_allows _
    | some range => exact admits.recordedDifference a b range found

theorem Facts.Admits.total {facts : Facts} {v : Valuation}
    (admits : facts.Admits v) (a b : Term) :
    (facts.total a b).Allows (v.total a b) := by
  unfold Facts.total
  cases found : facts.totals.find? (a, b) with
  | none => exact Range.any_allows _
  | some range => exact admits.recordedTotal a b range found

/-- What the language promises of its own `length`: a count, and nothing about
the argument. -/
def Env.CountsLengths (env : Env) : Prop :=
  ∀ callee, env.length.isSome → env.defOf callee = env.length →
    (env.call callee).value = .of (.between 0 Int64.maxValue)

/-! ## Names, lengths and the subject -/

section Atoms

variable {v : Valuation} {facts : Facts} {env : Env} {expr : Expr} {x : Int64}

/-- What reading an atom against the facts can come to. -/
theorem subject_cases (admits : facts.Admits v)
    (value : v.atom facts.subject env expr = some x) :
    (∃ term, subjectTerm expr facts env = some term ∧ v.term term = x ∧
      ∀ range, subjectRange expr facts env = some range → x.toInt ∈ range) ∨
    (∃ range, subjectTerm expr facts env = none ∧
      subjectRange expr facts env = some range ∧ x.toInt ∈ range) ∨
    (∃ term, subjectTerm expr facts env = none ∧
      subjectRange expr facts env = none ∧
      termOf expr env = some term ∧ v.term term = x) := by
  unfold Valuation.atom at value
  unfold subjectTerm subjectRange
  cases present : facts.subject with
  | none =>
      simp only [present, Option.isSome_none, Bool.false_and, Bool.false_eq_true,
        if_false, Option.map_eq_some_iff] at value
      obtain ⟨term, read, same⟩ := value
      exact Or.inr (Or.inr ⟨term, rfl, rfl, read, same⟩)
  | some subject =>
      obtain ⟨rangeMem, lengthMem⟩ := admits.subject subject present
      simp only [present, Option.isSome_some, Bool.true_and] at value
      simp only [Option.bind_some]
      cases named : subject.name with
      | none =>
          split at value
          · next isValue =>
              cases value
              exact Or.inr (Or.inl ⟨subject.range, rfl, by simp [isValue], rangeMem⟩)
          · next notValue =>
              split at value
              · next isLength =>
                  cases value
                  exact Or.inr (Or.inl ⟨subject.length, rfl,
                    by simp [notValue, isLength], lengthMem⟩)
              · next notLength =>
                  obtain ⟨term, read, same⟩ := Option.map_eq_some_iff.1 value
                  exact Or.inr (Or.inr ⟨term, rfl, by simp [notValue, notLength],
                    read, same⟩)
      | some def_ =>
          obtain ⟨sameValue, sameLength⟩ := admits.named subject def_ present named
          split at value
          · next isValue =>
              cases value
              exact Or.inl ⟨.name def_, by simp [isValue], sameValue.symm,
                by simpa [isValue] using rangeMem⟩
          · next notValue =>
              split at value
              · next isLength =>
                  cases value
                  exact Or.inl ⟨.length def_, by simp [notValue, isLength],
                    sameLength.symm, by simpa [notValue, isLength] using lengthMem⟩
              · next notLength =>
                  obtain ⟨term, read, same⟩ := Option.map_eq_some_iff.1 value
                  exact Or.inr (Or.inr ⟨term, by simp [notValue, notLength],
                    by simp [notValue, notLength], read, same⟩)

end Atoms

end Deed.Typeck
