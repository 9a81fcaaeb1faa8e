import Deed.Library.Rounding
import Deed.Typeck.Narrowing
import Deed.Typeck.Settling

/-!
# Narrowing rules no state out

A state in which a condition comes out as it is said to is still admitted by
what the condition narrows the facts to.  As for `holds`, an edge of `i64` that
stands for no bound must not be used as one on the way, and the conditions below
ask that of each comparison in the facts it is met with: forms are exact, a
counted name is a word after counting, and the names `settle` relates are close.
-/

namespace Deed.Typeck

open Deed.Ast Deed.Library

/-! ## Bounds -/

/-- A bound worked out from an offset allows every value the comparison does.
It comes out empty when it would start beyond `Int.max`, so a value beyond it
is lost there. -/
theorem boundFrom_allows {op : BinaryOp} {offset bound : Range} {x rest : Int}
    (found : boundFrom op offset = some bound) (restMem : rest ∈ offset)
    (nonempty : bound = .empty → x ≤ maxI64)
    (compared : compareInts op (x + rest) 0 = some true) : bound.Allows x := by
  obtain ⟨low, high, rfl, lower, upper⟩ := Range.exists_bounds restMem
  simp only [boundFrom, Range.bounds, Option.bind_eq_bind, Option.bind_some,
    Option.bind_eq_some_iff] at found
  obtain ⟨least, leastValue, most, mostValue, found⟩ := found
  have leastIs := checked_eq_some.1 leastValue
  have mostIs := checked_eq_some.1 mostValue
  have lowFits := inI64_toInt low
  have highFits := inI64_toInt high
  rw [inI64_iff] at lowFits highFits
  cases op with
  | lt =>
      have strict : x + rest < 0 := of_decide_eq_true (Option.some.inj compared)
      simp only at found
      split at found
      · next end_ counted =>
          cases found
          have endIs := checked_eq_some.1 counted
          exact Range.allows_between (Or.inl rfl) (Or.inr (by omega))
      · next overflow =>
          have outside := checked_eq_none.1 overflow
          rw [inI64_iff] at outside
          omega
  | le =>
      have weak : x + rest ≤ 0 := of_decide_eq_true (Option.some.inj compared)
      cases found
      exact Range.allows_between (Or.inl rfl) (Or.inr (by omega))
  | gt =>
      have strict : x + rest > 0 := of_decide_eq_true (Option.some.inj compared)
      simp only at found
      split at found
      · next end_ counted =>
          cases found
          have endIs := checked_eq_some.1 counted
          exact Range.allows_between (Or.inr (by omega)) (Or.inl rfl)
      · next overflow =>
          have outside := checked_eq_none.1 overflow
          have leastFits := inI64_toInt least
          rw [inI64_iff] at outside leastFits
          have inside : x ≤ 9223372036854775807 :=
            nonempty (Option.some.inj found).symm
          omega
  | ge =>
      have weak : x + rest ≥ 0 := of_decide_eq_true (Option.some.inj compared)
      cases found
      exact Range.allows_between (Or.inr (by omega)) (Or.inl rfl)
  | eq =>
      have same : x + rest = 0 := of_decide_eq_true (Option.some.inj compared)
      cases found
      exact Range.allows_between (Or.inr (by omega)) (Or.inr (by omega))
  | _ => cases found

theorem roundUp_eq {value by_ quotient : Int64}
    (found : roundUp value by_ = some quotient) :
    quotient.toInt = quotUp value.toInt by_.toInt := by
  have signs : (value < 0 ↔ by_ < 0) ↔ (value.toInt < 0 ↔ by_.toInt < 0) := by
    simp only [Int64.lt_iff_toInt_lt, Int64.toInt_zero]
  simp only [roundUp, checkedDiv, Option.bind_eq_bind, Option.bind_eq_some_iff]
    at found
  obtain ⟨truncated, divided_, found⟩ := found
  split at divided_
  · cases divided_
  · have truncatedIs := checked_eq_some.1 divided_
    unfold quotUp
    simp only [signs] at found
    split at found
    · next rounded =>
        cases found
        rw [if_pos rounded, truncatedIs]
    · next rounded =>
        rw [if_neg rounded, checked_eq_some.1 found, truncatedIs]

theorem roundDown_eq {value by_ quotient : Int64}
    (found : roundDown value by_ = some quotient) :
    ((value = Int64.minValue ∧ by_ = -1) ∧ quotient = Int64.maxValue) ∨
      quotient.toInt = quotDown value.toInt by_.toInt := by
  have signs : (value < 0 ↔ by_ < 0) ↔ (value.toInt < 0 ↔ by_.toInt < 0) := by
    simp only [Int64.lt_iff_toInt_lt, Int64.toInt_zero]
  unfold roundDown at found
  split at found
  · next edge =>
      cases found
      exact Or.inl ⟨edge, rfl⟩
  · right
    simp only [checkedDiv, Option.bind_eq_bind, Option.bind_eq_some_iff] at found
    obtain ⟨truncated, divided_, found⟩ := found
    split at divided_
    · cases divided_
    · have truncatedIs := checked_eq_some.1 divided_
      unfold quotDown
      simp only [signs] at found
      split at found
      · next rounded =>
          cases found
          rw [if_pos rounded, truncatedIs]
      · next rounded =>
          rw [if_neg rounded, checked_eq_some.1 found, truncatedIs]

/-- A counted value in a bound is a value in the bound divided by its count. -/
theorem mem_divided {bound narrowed : Range} {count value : Int64}
    (found : divided bound count = some narrowed)
    (member : count.toInt * value.toInt ∈ bound) : value.toInt ∈ narrowed := by
  obtain ⟨low, high, rfl, lower, upper⟩ := Range.exists_bounds member
  have whole := inI64_toInt value
  unfold divided at found
  split at found
  · cases found
  · next nonzero =>
      simp only [Range.bounds] at found
      split at found
      · next positive =>
          have positiveInt : 0 < count.toInt := Int64.lt_iff_toInt_lt.1 positive
          simp only [Option.bind_eq_bind, Option.bind_eq_some_iff] at found
          obtain ⟨least, leastIs, most, mostIs, same⟩ := found
          cases same
          rw [Range.mem_between, roundUp_eq leastIs,
            quotUp_le_iff positiveInt]
          refine ⟨lower, ?_⟩
          rcases roundDown_eq mostIs with ⟨⟨-, isMinusOne⟩, -⟩ | quotient
          · rw [isMinusOne] at positiveInt
            exact absurd positiveInt (by decide)
          · rw [quotient, le_quotDown_iff positiveInt]
            exact upper
      · next notPositive =>
          have negative : count.toInt < 0 := by
            have weak : ¬ 0 < count.toInt := fun positive =>
              notPositive (Int64.lt_iff_toInt_lt.2 positive)
            have apart : count.toInt ≠ 0 := fun zero =>
              nonzero (Int64.toInt_inj.1 zero)
            omega
          simp only [Option.bind_eq_bind, Option.bind_eq_some_iff] at found
          obtain ⟨least, leastIs, most, mostIs, same⟩ := found
          cases same
          rw [Range.mem_between, roundUp_eq leastIs, quotUp_le_iff_neg negative]
          refine ⟨upper, ?_⟩
          rcases roundDown_eq mostIs with ⟨-, isMax⟩ | quotient
          · rw [isMax]
            exact whole.2
          · rw [quotient, le_quotDown_iff_neg negative]
            exact lower

/-- Taking an end off a range takes no other value off. -/
theorem mem_withoutEnd {known narrowed : Range} {ruledOut value : Int64}
    (found : withoutEnd known ruledOut = some narrowed)
    (member : value.toInt ∈ known) (apart : value ≠ ruledOut) :
    value.toInt ∈ narrowed := by
  obtain ⟨low, high, rfl, lower, upper⟩ := Range.exists_bounds member
  have apartInt : value.toInt ≠ ruledOut.toInt := fun same =>
    apart (Int64.toInt_inj.1 same)
  have whole := inI64_toInt value
  have ends := inI64_toInt ruledOut
  rw [inI64_iff] at whole ends
  simp only [withoutEnd, Range.bounds] at found
  split at found
  · next isLow =>
      subst isLow
      split at found
      · next bound counted =>
          cases found
          have boundIs := checked_eq_some.1 counted
          exact Range.mem_between.2 ⟨by omega, upper⟩
      · next overflow =>
          have outside := checked_eq_none.1 overflow
          rw [inI64_iff] at outside
          omega
  · split at found
    · next isHigh =>
        subst isHigh
        split at found
        · next bound counted =>
            cases found
            have boundIs := checked_eq_some.1 counted
            exact Range.mem_between.2 ⟨lower, by omega⟩
        · next overflow =>
            have outside := checked_eq_none.1 overflow
            rw [inI64_iff] at outside
            omega
    · cases found

/-! ## When a comparison narrows exactly -/

section Exact

variable (env : Env) (v : Valuation)

/-- What ruling a value out needs: the left side stands for its term, the right
side is in its range, and a narrowing that follows may settle. -/
def RuleOutExact (op : BinaryOp) (left right : Expr) (facts : Facts) : Prop :=
  op = .ne → ∀ term value, termOf left env = some term →
    (rangeOf facts env right).bounds = some (value, value) →
      (∀ x ∈ v.int facts.subject env left, x = v.term term) ∧
        RangeExact facts env v right ∧
        ∀ narrowed, withoutEnd (facts.get term) value = some narrowed →
          facts.NarrowExact v term narrowed

/-- Nothing is clamped in the form a comparison pins. -/
def SidesExact (left right : Expr) (facts : Facts) : Prop :=
  RangeExact facts env v left ∧ RangeExact facts env v right ∧
    DifferenceExact facts env v left right

/-- What narrowing a counted name needs: the name is a word after counting. -/
def ScaledExact (op : BinaryOp) (left right : Expr) (facts : Facts) : Prop :=
  let form := differenceForm left right facts env
  ∀ term count bound, form.scaledName = some (term, count) →
    boundFrom op form.offset = some bound →
      SidesExact env v left right facts ∧
        InI64 (count.toInt * (v.term term).toInt) ∧
        ∀ narrowed, divided bound count = some narrowed →
          facts.NarrowExact v term narrowed

/-- What recording a relation needs: a bound that starts beyond `Int.max` is not
met, and a difference that is recorded may settle. -/
def RelationExact (op : BinaryOp) (left right : Expr) (facts : Facts) : Prop :=
  let form := differenceForm left right facts env
  ∀ bound, boundFrom op form.offset = some bound →
    (∀ a b, form.pair = some (a, b) →
      SidesExact env v left right facts ∧
        (bound = .empty → v.gap a b ≤ maxI64) ∧
        facts.NarrowDifferenceExact v a b bound) ∧
    (form.pair = none → ∀ a b, form.total = some (a, b) →
      SidesExact env v left right facts ∧
        (bound = .empty → v.total a b ≤ maxI64))

variable (order : WalkOrder)

/-- The conditions of one comparison, each in the facts it is met with. -/
def ComparisonExact (op : BinaryOp) (left right : Expr) (facts : Facts) : Prop :=
  let first := ruleOutAValue order env op left right facts
  let second := ruleOutFlipped order env op left right first
  let third := narrowScaled order env op left right second
  RuleOutExact env v op left right facts ∧
    (∀ swapped, flipped op = some swapped →
      RuleOutExact env v swapped right left first) ∧
    ScaledExact env v op left right second ∧
    RelationExact env v op left right third

/-- The conditions of every comparison a condition narrows by. -/
def NarrowingExact : Expr → Facts → Bool → Prop
  | .unary .not operand _, facts, whenTrue =>
      NarrowingExact operand facts (!whenTrue)
  | .binary .and lhs rhs _, facts, true =>
      NarrowingExact lhs facts true ∧
        NarrowingExact rhs (applyNarrowing order env lhs facts true) true
  | .binary .or lhs rhs _, facts, false =>
      NarrowingExact lhs facts false ∧
        NarrowingExact rhs (applyNarrowing order env lhs facts false) false
  | .binary op lhs rhs _, facts, whenTrue =>
      ∀ effective, (if whenTrue then some op else negated op) = some effective →
        ComparisonExact env v order effective lhs rhs facts
  | _, _, _ => True

end Exact

/-! ## One comparison -/

/-- Comparing two values is comparing their difference with nought. -/
theorem compareInts_sub (op : BinaryOp) (x y : Int) :
    compareInts op (x - y) 0 = compareInts op x y := by
  cases op <;> simp only [compareInts] <;> congr 2 <;> apply propext <;> omega

/-- The comparison with its sides swapped says the same. -/
theorem compareInts_flipped {op swapped : BinaryOp} (x y : Int)
    (found : flipped op = some swapped) :
    compareInts swapped y x = compareInts op x y := by
  cases op <;> cases found <;> simp only [compareInts] <;> congr 2 <;>
    apply propext <;> omega

/-- The negated comparison holds where the comparison fails. -/
theorem compareInts_negated {op opposite : BinaryOp} {x y : Int}
    (found : negated op = some opposite)
    (fails : compareInts op x y = some false) :
    compareInts opposite x y = some true := by
  cases op <;> cases found <;> simp only [compareInts, Option.some.injEq,
    decide_eq_true_eq, decide_eq_false_iff_not] at fails ⊢ <;> omega

section Comparison

variable {order : WalkOrder} {env : Env} {v : Valuation} {facts : Facts}
  {op : BinaryOp} {left right : Expr} {x y : Int64}

theorem ruleOutAValue_subject :
    (ruleOutAValue order env op left right facts).subject = facts.subject := by
  unfold ruleOutAValue
  repeat' split
  all_goals first | rfl | exact Facts.narrow_subject order

theorem ruleOutFlipped_subject :
    (ruleOutFlipped order env op left right facts).subject = facts.subject := by
  unfold ruleOutFlipped
  split
  · exact ruleOutAValue_subject
  · rfl

theorem narrowScaled_subject :
    (narrowScaled order env op left right facts).subject = facts.subject := by
  unfold narrowScaled
  simp only
  repeat' split
  all_goals first | rfl | exact Facts.narrow_subject order

theorem narrowRelation_subject :
    (narrowRelation order env op left right facts).subject = facts.subject := by
  unfold narrowRelation
  simp only
  repeat' split
  all_goals first | rfl | exact Facts.narrowDifference_subject order

theorem narrowComparison_subject :
    (narrowComparison order env op left right facts).subject = facts.subject := by
  unfold narrowComparison
  simp only
  rw [narrowRelation_subject, narrowScaled_subject, ruleOutFlipped_subject,
    ruleOutAValue_subject]

/-- A comparison is read as it stands when it holds and negated when it fails. -/
theorem applyNarrowing_binary {lhs rhs : Expr} {span : Span} {whenTrue : Bool}
    (notAnd : whenTrue = true → op = .and → False)
    (notOr : whenTrue = false → op = .or → False) :
    applyNarrowing order env (.binary op lhs rhs span) facts whenTrue =
      match if whenTrue then some op else negated op with
      | some effective => narrowComparison order env effective lhs rhs facts
      | none => facts := by
  rw [applyNarrowing] <;> first | rfl | assumption

theorem narrowingExact_binary {lhs rhs : Expr} {span : Span} {whenTrue : Bool}
    (notAnd : whenTrue = true → op = .and → False)
    (notOr : whenTrue = false → op = .or → False)
    (exact_ : NarrowingExact env v order (.binary op lhs rhs span) facts whenTrue) :
    ∀ effective, (if whenTrue then some op else negated op) = some effective →
      ComparisonExact env v order effective lhs rhs facts := by
  rw [NarrowingExact] at exact_
  · exact exact_
  · exact notAnd
  · exact notOr

theorem applyNarrowing_other {other : Expr} {whenTrue : Bool}
    (notNot : ∀ operand span, other = .unary .not operand span → False)
    (notAnd : ∀ lhs rhs span, other = .binary .and lhs rhs span →
      whenTrue = true → False)
    (notOr : ∀ lhs rhs span, other = .binary .or lhs rhs span →
      whenTrue = false → False)
    (notComparison : ∀ op lhs rhs span, other = .binary op lhs rhs span → False) :
    applyNarrowing order env other facts whenTrue = facts := by
  rw [applyNarrowing] <;> first | rfl | assumption

theorem applyNarrowing_subject (condition : Expr) (facts : Facts)
    (whenTrue : Bool) :
    (applyNarrowing order env condition facts whenTrue).subject =
      facts.subject := by
  induction condition, facts, whenTrue using applyNarrowing.induct order env with
  | case1 operand span facts whenTrue ih => exact ih
  | case2 lhs rhs span facts first second =>
      rw [applyNarrowing]
      exact second.trans first
  | case3 lhs rhs span facts first second =>
      rw [applyNarrowing]
      exact second.trans first
  | case4 op lhs rhs span facts whenTrue notAnd notOr effective asked =>
      rw [applyNarrowing_binary notAnd notOr, asked]
      exact narrowComparison_subject
  | case5 op lhs rhs span facts whenTrue notAnd notOr none_ =>
      rw [applyNarrowing_binary notAnd notOr, none_]
  | case6 other facts whenTrue notNot notAnd notOr notComparison =>
      rw [applyNarrowing_other notNot notAnd notOr notComparison]

variable (counts : env.CountsLengths) (admits : facts.Admits v)
  (leftValue : v.int facts.subject env left = some x)
  (rightValue : v.int facts.subject env right = some y)
  (compared : compareInts op x.toInt y.toInt = some true)

include counts admits leftValue rightValue compared

theorem ruleOutAValue_admits (exact_ : RuleOutExact env v op left right facts) :
    (ruleOutAValue order env op left right facts).Admits v := by
  unfold ruleOutAValue
  split
  · exact admits
  · next isNe =>
      rw [not_not] at isNe
      subst isNe
      split
      · exact admits
      · next term read =>
          split
          · exact admits
          · next low high bounded =>
              split
              · exact admits
              · next single =>
                  rw [not_not] at single
                  subst single
                  obtain ⟨stands, rightExact, settles⟩ :=
                    exact_ rfl term low read bounded
                  split
                  · next narrowed found =>
                      have rightMem := (reading_sound counts admits right
                        rightExact y rightValue).1
                      have isLow : y = low := by
                        obtain ⟨least, most, same, lower, upper⟩ :=
                          Range.exists_bounds rightMem
                        rw [same] at bounded
                        cases bounded
                        exact Int64.toInt_inj.1 (le_antisymm upper lower)
                      have apart : v.term term ≠ low := by
                        rw [← stands x leftValue, ← isLow]
                        rintro rfl
                        simp [compareInts] at compared
                      exact admits.narrow
                        (mem_withoutEnd found (admits.term term) apart)
                        (settles narrowed found) order
                  · exact admits

theorem narrowScaled_admits (exact_ : ScaledExact env v op left right facts) :
    (narrowScaled order env op left right facts).Admits v := by
  unfold narrowScaled
  simp only
  split
  · exact admits
  · next term count shape =>
      split
      · exact admits
      · next narrowed found =>
          obtain ⟨bound, bounded, divided_⟩ := Option.bind_eq_some_iff.1 found
          obtain ⟨⟨leftExact, rightExact, noClamp⟩, counted, settles⟩ :=
            exact_ term count bound shape bounded
          have reads := differenceForm_reads counts admits leftExact rightExact
            noClamp leftValue rightValue
          have allows := boundFrom_allows (x := count.toInt * (v.term term).toInt)
            bounded reads (fun _ => counted.2) (by
              rw [Linear.rest, Linear.sum_scaledName shape, add_sub_cancel,
                compareInts_sub]
              exact compared)
          exact admits.narrow (mem_divided divided_ (allows.mem counted))
            (settles narrowed divided_) order

theorem narrowRelation_admits
    (exact_ : RelationExact env v op left right facts) :
    (narrowRelation order env op left right facts).Admits v := by
  unfold narrowRelation
  simp only
  split
  · exact admits
  · next bound bounded =>
      obtain ⟨paired, totalled⟩ := exact_ bound bounded
      split
      · next a b shape =>
          obtain ⟨⟨leftExact, rightExact, noClamp⟩, nonempty, settles⟩ :=
            paired a b shape
          have reads := differenceForm_reads counts admits leftExact rightExact
            noClamp leftValue rightValue
          have allows := boundFrom_allows (x := v.gap a b) bounded reads nonempty
            (by
              rw [Linear.rest, Linear.sum_pair shape, add_sub_cancel,
                compareInts_sub]
              exact compared)
          exact admits.narrowDifference allows settles order
      · next apart =>
          split
          · next a b shape =>
              obtain ⟨⟨leftExact, rightExact, noClamp⟩, nonempty⟩ :=
                totalled apart a b shape
              have reads := differenceForm_reads counts admits leftExact
                rightExact noClamp leftValue rightValue
              have allows := boundFrom_allows (x := v.total a b) bounded reads
                nonempty (by
                  rw [Linear.rest, Linear.sum_total shape, add_sub_cancel,
                    compareInts_sub]
                  exact compared)
              exact admits.narrowTotal allows
          · exact admits

theorem ruleOutFlipped_admits
    (exact_ : ∀ swapped, flipped op = some swapped →
      RuleOutExact env v swapped right left facts) :
    (ruleOutFlipped order env op left right facts).Admits v := by
  unfold ruleOutFlipped
  split
  · next swapped found =>
      exact ruleOutAValue_admits counts admits rightValue leftValue
        ((compareInts_flipped _ _ found).trans compared) (exact_ swapped found)
  · exact admits

/-- A comparison that holds narrows the facts to ones that still admit the
state. -/
theorem narrowComparison_admits
    (exact_ : ComparisonExact env v order op left right facts) :
    (narrowComparison order env op left right facts).Admits v := by
  obtain ⟨first, second, third, fourth⟩ := exact_
  show (narrowRelation order env op left right
    (narrowScaled order env op left right
      (ruleOutFlipped order env op left right
        (ruleOutAValue order env op left right facts)))).Admits v
  have ruledOut : (ruleOutAValue order env op left right facts).Admits v :=
    ruleOutAValue_admits counts admits leftValue rightValue compared first
  have ruledOutSubject :
      (ruleOutAValue order env op left right facts).subject = facts.subject :=
    ruleOutAValue_subject
  rw [← ruledOutSubject] at leftValue rightValue
  generalize ruleOutAValue order env op left right facts = facts₁ at *
  have swapped : (ruleOutFlipped order env op left right facts₁).Admits v :=
    ruleOutFlipped_admits counts ruledOut leftValue rightValue compared second
  have swappedSubject :
      (ruleOutFlipped order env op left right facts₁).subject = facts₁.subject :=
    ruleOutFlipped_subject
  rw [← swappedSubject] at leftValue rightValue
  generalize ruleOutFlipped order env op left right facts₁ = facts₂ at *
  have scaled : (narrowScaled order env op left right facts₂).Admits v :=
    narrowScaled_admits counts swapped leftValue rightValue compared third
  have scaledSubject :
      (narrowScaled order env op left right facts₂).subject = facts₂.subject :=
    narrowScaled_subject
  rw [← scaledSubject] at leftValue rightValue
  exact narrowRelation_admits counts scaled leftValue rightValue compared fourth

end Comparison

/-! ## Conditions -/

section Conditions

variable {order : WalkOrder} {env : Env} {v : Valuation}

/-- An operator that is no comparison bounds nothing. -/
theorem boundFrom_or (offset : Range) : boundFrom .or offset = none := by
  unfold boundFrom
  cases offset.bounds with
  | none => rfl
  | some ends =>
      obtain ⟨low, high⟩ := ends
      simp only [Option.bind_eq_bind, Option.bind_some]
      cases checked (-high.toInt) with
      | none => rfl
      | some least => cases checked (-low.toInt) <;> rfl

/-- An operator that is no comparison narrows nothing. -/
theorem narrowComparison_or (left right : Expr) (facts : Facts) :
    narrowComparison order env .or left right facts = facts := by
  have ruledOut : ruleOutAValue order env .or left right facts = facts := rfl
  have swapped : ruleOutFlipped order env .or left right facts = facts := rfl
  have scaled : narrowScaled order env .or left right facts = facts := by
    unfold narrowScaled
    simp only [boundFrom_or]
    split <;> rfl
  have related : narrowRelation order env .or left right facts = facts := by
    unfold narrowRelation
    simp only [boundFrom_or]
  unfold narrowComparison
  simp only [ruledOut, swapped, scaled, related]

/-- The walk over a condition keeps a state in which it comes out as it is said
to. -/
theorem narrowing_admits (order : WalkOrder) (counts : env.CountsLengths)
    (condition : Expr) (facts : Facts) (actual : Bool)
    (admits : facts.Admits v)
    (exact_ : NarrowingExact env v order condition facts actual)
    (value : v.bool facts.subject env condition = some actual) :
    (applyNarrowing order env condition facts actual).Admits v := by
  induction condition, facts, actual using applyNarrowing.induct order env with
  | case1 operand span facts whenTrue ih =>
      obtain ⟨inner, innerValue, same⟩ := Option.map_eq_some_iff.1 value
      have flip : inner = !whenTrue := by
        rw [← same, Bool.not_not]
      subst flip
      rw [applyNarrowing]
      rw [NarrowingExact] at exact_
      exact ih admits exact_ innerValue
  | case2 lhs rhs span facts first second =>
      obtain ⟨left, leftValue, rest⟩ := Option.bind_eq_some_iff.1 value
      rw [NarrowingExact] at exact_
      cases left with
      | false => cases rest
      | true =>
          rw [applyNarrowing]
          refine second (first admits exact_.1 leftValue) exact_.2 ?_
          rw [applyNarrowing_subject]
          exact rest
  | case3 lhs rhs span facts first second =>
      obtain ⟨left, leftValue, rest⟩ := Option.bind_eq_some_iff.1 value
      rw [NarrowingExact] at exact_
      cases left with
      | true => cases rest
      | false =>
          rw [applyNarrowing]
          refine second (first admits exact_.1 leftValue) exact_.2 ?_
          rw [applyNarrowing_subject]
          exact rest
  | case4 op lhs rhs span facts whenTrue notAnd notOr effective asked =>
      rw [applyNarrowing_binary notAnd notOr, asked]
      have comparison := narrowingExact_binary notAnd notOr exact_ effective asked
      by_cases isOr : op = .or
      · subst isOr
        cases whenTrue with
        | true =>
            cases asked
            simp only
            rw [narrowComparison_or]
            exact admits
        | false => exact (notOr rfl rfl).elim
      · have notAnd' : op ≠ .and := by
          rintro rfl
          cases whenTrue with
          | true => exact notAnd rfl rfl
          | false => cases asked
        obtain ⟨x, leftValue, y, rightValue, compared⟩ :=
          v.comparison_values notAnd' isOr value
        refine narrowComparison_admits counts admits leftValue rightValue ?_
          comparison
        cases whenTrue with
        | true =>
            cases asked
            exact compared
        | false => exact compareInts_negated asked compared
  | case5 op lhs rhs span facts whenTrue notAnd notOr none_ =>
      rw [applyNarrowing_binary notAnd notOr, none_]
      exact admits
  | case6 other facts whenTrue notNot notAnd notOr notComparison =>
      rw [applyNarrowing_other notNot notAnd notOr notComparison]
      exact admits

end Conditions

/-! ## Where a clamped edge rules a state out -/

/-- `5 > b`. -/
def belowFive : Expr :=
  .binary .gt (.int 5 (.at 0)) (nameExpr "b") (.at 0)

theorem differenceForm_belowFive {facts : Facts}
    (noSubject : facts.subject = none) :
    differenceForm (.int 5 (.at 0)) (nameExpr "b") facts namesAB =
      ⟨[(.name 1, -1)], .exactly 5⟩ := by
  rw [differenceForm, linear_int, linear_nameAB noSubject "b" 1 rfl]
  decide

/-- The facts `5 > b` narrows to from nothing. -/
def belowFiveFacts : Facts :=
  { Facts.new with
    known := Table.empty.insert (.name 1) (.bounded (-Int64.maxValue) 4) }

theorem narrowed_belowFive :
    narrowed .asKept namesAB belowFive Facts.new true = belowFiveFacts := by
  have scaled : narrowScaled .asKept namesAB .gt (.int 5 (.at 0)) (nameExpr "b")
      Facts.new = belowFiveFacts := by
    unfold narrowScaled
    rw [differenceForm_belowFive rfl]
    decide
  have related : narrowRelation .asKept namesAB .gt (.int 5 (.at 0))
      (nameExpr "b") belowFiveFacts = belowFiveFacts := by
    unfold narrowRelation
    rw [differenceForm_belowFive rfl]
    decide
  rw [narrowed, belowFive, applyNarrowing_binary (by decide) (by decide)]
  change narrowRelation .asKept namesAB .gt _ _
    (narrowScaled .asKept namesAB .gt _ _ Facts.new) = _
  rw [scaled, related]

end Deed.Typeck
