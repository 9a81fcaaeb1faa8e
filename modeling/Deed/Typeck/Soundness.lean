import Deed.Typeck.Forms

/-!
# What the prover answers is so

`holds` reads a condition against the facts and answers `Always`, `Never` or
neither.  The module says when those answers can be relied on, in a state the
facts admit, and proves that they can.

They can fail, because the ends of `i64` are used for two things at once: an
end that was clamped to, or that stood for no bound at all, is moved by the
next operation as if it were a real one.  `CondExact` names every place where
that can happen and asks of the state that it does not: a subtrahend is not
`Int.min`, whose negation is clamped; a linear form that is compared with the
recorded facts is exact; and the offset it leaves does not move an edge inwards
past the difference the edge was recorded for.
-/

namespace Deed.Typeck

open Deed.Ast Deed.Library

/-- No offset moves the edge of what is recorded for the terms of `form`. -/
def Linear.RelationClears (v : Valuation) (form : Linear) : Prop :=
  (∀ a b, form.pair = some (a, b) →
    form.offset.Clears (v.gap a b)) ∧
  (form.pair = none → ∀ a b, form.total = some (a, b) →
    form.offset.Clears (v.total a b))

section Exact

variable (facts : Facts) (env : Env) (v : Valuation)

/-- Nothing is clamped on the way to the linear form of an expression. -/
def LinearExact : Expr → Prop
  | .unary .neg operand _ =>
      LinearExact operand ∧
        ∀ x ∈ v.int facts.subject env operand,
          (linear facts env operand).NegateExact v x.toInt
  | .binary .add lhs rhs _ =>
      LinearExact lhs ∧ LinearExact rhs ∧
        ∀ x ∈ v.int facts.subject env lhs, ∀ y ∈ v.int facts.subject env rhs,
          (linear facts env lhs).AddExact v (linear facts env rhs) x.toInt
            y.toInt
  | .binary .sub lhs rhs _ =>
      LinearExact lhs ∧ LinearExact rhs ∧
        ∀ x ∈ v.int facts.subject env lhs, ∀ y ∈ v.int facts.subject env rhs,
          (linear facts env lhs).SubtractExact v (linear facts env rhs) x.toInt
            y.toInt
  | .binary .mul lhs rhs _ =>
      LinearExact lhs ∧ LinearExact rhs ∧
        ∀ x ∈ v.int facts.subject env lhs, ∀ y ∈ v.int facts.subject env rhs,
          (∀ factor, (linear facts env lhs).constantValue = some factor →
            (linear facts env rhs).ScaleExact v factor y.toInt) ∧
          (∀ factor, (linear facts env rhs).constantValue = some factor →
            (linear facts env lhs).ScaleExact v factor x.toInt)
  | _ => True

/-- Nothing is clamped that the range of an expression depends on. -/
def RangeExact : Expr → Prop
  | .unary .neg operand _ => RangeExact operand
  | .binary op lhs rhs span =>
      RangeExact lhs ∧ RangeExact rhs ∧
        (op = .sub → v.int facts.subject env rhs ≠ some Int64.minValue) ∧
        (related facts env (.binary op lhs rhs span) ≠ none →
          LinearExact facts env v (.binary op lhs rhs span) ∧
            (linear facts env (.binary op lhs rhs span)).RelationClears v)
  | _ => True

/-- Nothing is clamped on the way to the linear form of a difference. -/
def DifferenceExact (lhs rhs : Expr) : Prop :=
  LinearExact facts env v lhs ∧ LinearExact facts env v rhs ∧
    ∀ x ∈ v.int facts.subject env lhs, ∀ y ∈ v.int facts.subject env rhs,
      (linear facts env lhs).SubtractExact v (linear facts env rhs) x.toInt
        y.toInt

/-- Nothing is clamped that comparing two expressions depends on. -/
def CompareExact (lhs rhs : Expr) : Prop :=
  RangeExact facts env v lhs ∧ RangeExact facts env v rhs ∧
    ((differenceForm lhs rhs facts env).pair ≠ none →
      DifferenceExact facts env v lhs rhs ∧
        (differenceForm lhs rhs facts env).RelationClears v)

/-- Nothing is clamped that settling a condition depends on.  A side of `&&` or
`||` that is not evaluated is not asked about. -/
def CondExact : Expr → Prop
  | .unary .not operand _ => CondExact operand
  | .binary .and lhs rhs _ =>
      CondExact lhs ∧ (v.bool facts.subject env lhs = some true → CondExact rhs)
  | .binary .or lhs rhs _ =>
      CondExact lhs ∧ (v.bool facts.subject env lhs = some false → CondExact rhs)
  | .binary _ lhs rhs _ => CompareExact facts env v lhs rhs
  | _ => True

end Exact

/-! ## Forms and ranges of expressions -/

section Reading

variable {facts : Facts} {env : Env} {v : Valuation}

theorem distinct_linear (expr : Expr) :
    Assoc.Distinct (linear facts env expr).terms := by
  have constant (range : Range) :
      Assoc.Distinct (Linear.constant range).terms := List.nodup_nil
  have atom (expr : Expr) (shape : isAtom expr = true) :
      Assoc.Distinct (linear facts env expr).terms := by
    rw [linear_atom shape]
    split
    · exact Linear.distinct_name _
    · split
      · exact constant _
      · split
        · exact Linear.distinct_name _
        · exact constant _
  induction expr using Valuation.int.induct with
  | case1 value span =>
      rw [linear_other rfl rfl]
      exact constant _
  | case2 name => exact atom _ rfl
  | case3 callee args span => exact atom _ rfl
  | case4 receiver name span =>
      rw [linear_other rfl rfl]
      exact constant _
  | case5 operand span ih =>
      rw [linear_neg]
      exact Linear.distinct_negate ih
  | case6 lhs rhs span left right =>
      rw [linear_add]
      exact Linear.distinct_add left
  | case7 lhs rhs span left right =>
      rw [linear_sub]
      exact Linear.distinct_add left
  | case8 lhs rhs span left right =>
      rw [linear_mul]
      cases found : (linear facts env lhs).product (linear facts env rhs) with
      | none => exact constant _
      | some form =>
          rcases Linear.product_cases found with ⟨_, -, scaled⟩ | ⟨_, -, scaled⟩
          · exact Linear.distinct_scale right scaled
          · exact Linear.distinct_scale left scaled
  | case9 other int ident call field neg add sub mul =>
      have notAtom : isAtom other = false := by
        cases other <;> first | rfl | simp_all
      have notArithmetic : isArithmetic other = false := by
        cases other with
        | unary op operand span => cases op <;> first | rfl | simp_all
        | binary op lhs rhs span => cases op <;> first | rfl | simp_all
        | _ => rfl
      rw [linear_other notAtom notArithmetic]
      exact constant _

/-- The interval of an atom, once the subject of a predicate is accounted for. -/
theorem mem_interval_atom (counts : env.CountsLengths) (admits : facts.Admits v)
    {expr : Expr} (shape : isAtom expr = true) {x : Int64}
    (value : v.atom facts.subject env expr = some x) :
    x.toInt ∈ intervalOf facts env expr := by
  rcases subject_cases admits value with
    ⟨term, named, rfl, inside⟩ | ⟨range, unnamed, about, member⟩ |
    ⟨term, unnamed, apart, read, rfl⟩
  · rw [intervalOf.eq_def, named]
    simp only
    split
    · next range about =>
        exact Range.mem_meet.2 ⟨admits.term term, inside range about⟩
    · exact admits.term term
  · rw [intervalOf.eq_def, unnamed]
    simp only [about]
    exact member
  · cases expr with
    | ident name =>
        rw [intervalOf.eq_def, unnamed, apart]
        simp only [read]
        exact admits.term term
    | call callee args span =>
        rw [intervalOf.eq_def, unnamed, apart]
        simp only
        unfold termOf at read
        simp only at read
        split at read
        · next isLength =>
            split at read
            · next name head =>
                obtain ⟨def_, found, rfl⟩ := Option.map_eq_some_iff.1 read
                have named : termOf (.ident name) env = some (.name def_) := by
                  simp [termOf, found]
                have length : lengthOf (.ident name) facts env =
                    facts.get (.length def_) := by
                  simp only [lengthOf, named]
                simp only [isLengthCall, Bool.and_eq_true, beq_iff_eq] at isLength
                obtain ⟨⟨inScope, one⟩, same⟩ := isLength
                rw [counts callee inScope same, Guarantee.landing_of]
                simp only [isLengthCall, inScope, one, same, head, length,
                  Bool.and_self, beq_self_eq_true, if_true]
                refine Range.mem_meet.2 ⟨?_, admits.term _⟩
                exact Range.mem_between.2 ⟨v.length_nonneg def_, (inI64_toInt _).2⟩
            · cases read
        · cases read
    | _ => cases shape

/-- What is recorded for the terms of an exact form holds the value it reads. -/
theorem mem_related (admits : facts.Admits v) {expr : Expr} {x : Int}
    (fits : InI64 x) (reads : (linear facts env expr).Reads v x)
    (clears : (linear facts env expr).RelationClears v) {range : Range}
    (found : related facts env expr = some range) : x ∈ range := by
  rw [related] at found
  split at found
  · simp only at found
    split at found
    · next a b pair =>
        cases found
        have split_ : x = v.gap a b +
            (linear facts env expr).rest v x := by
          rw [Linear.rest, Linear.sum_pair pair]
          omega
        have member := Range.nearest_mem_shift (admits.difference a b) reads
          (clears.1 a b pair)
        rwa [← split_, Range.nearest_of_inI64 fits] at member
    · next apart =>
        split at found
        · next a b total =>
            cases found
            have split_ : x = v.total a b +
                (linear facts env expr).rest v x := by
              rw [Linear.rest, Linear.sum_total total]
              omega
            have member := Range.nearest_mem_shift (admits.total a b) reads
              (clears.2 apart a b total)
            rwa [← split_, Range.nearest_of_inI64 fits] at member
        · cases found
  · cases found

theorem mem_rangeOf_of_interval (admits : facts.Admits v) {expr : Expr} {x : Int}
    (interval : x ∈ intervalOf facts env expr)
    (reads : LinearExact facts env v expr → (linear facts env expr).Reads v x)
    (recorded : related facts env expr ≠ none →
      LinearExact facts env v expr ∧ (linear facts env expr).RelationClears v) :
    x ∈ rangeOf facts env expr := by
  rw [rangeOf]
  cases found : related facts env expr with
  | none => exact interval
  | some range =>
      obtain ⟨exact_, clears⟩ := recorded (by simp [found])
      exact Range.mem_meet.2 ⟨interval,
        mem_related admits (Range.inI64_of_mem interval) (reads exact_) clears found⟩

theorem related_of_not_sum {expr : Expr} (shape : isSum expr = false) :
    related facts env expr = none := by
  rw [related, shape]
  rfl

/-- An expression in range whose exact form reads it. -/
def ReadsSoundly (facts : Facts) (env : Env) (v : Valuation) (expr : Expr)
    (x : Int) : Prop :=
  x ∈ rangeOf facts env expr ∧
    (LinearExact facts env v expr → (linear facts env expr).Reads v x)

theorem atom_sound (counts : env.CountsLengths) (admits : facts.Admits v)
    {expr : Expr} (shape : isAtom expr = true) {x : Int64}
    (value : v.atom facts.subject env expr = some x) :
    ReadsSoundly facts env v expr x.toInt := by
  have interval := mem_interval_atom counts admits shape value
  have notSum : isSum expr = false := by
    cases expr <;> first | rfl | exact Bool.noConfusion shape
  refine ⟨?_, fun _ => ?_⟩
  · rw [rangeOf, related_of_not_sum notSum]
    exact interval
  · rw [linear_atom shape]
    rcases subject_cases admits value with
      ⟨term, named, rfl, -⟩ | ⟨range, unnamed, about, member⟩ |
      ⟨term, unnamed, apart, read, rfl⟩
    · rw [named]
      exact Linear.reads_name term
    · rw [unnamed, about]
      exact Linear.reads_constant member
    · rw [unnamed, apart, read]
      exact Linear.reads_name term

theorem plain_sound {expr : Expr} {x : Int} (atom : isAtom expr = false)
    (arithmetic : isArithmetic expr = false)
    (interval : x ∈ intervalOf facts env expr) :
    ReadsSoundly facts env v expr x := by
  have notSum : isSum expr = false := by
    cases expr with
    | binary op lhs rhs span => cases op <;> first | rfl | exact arithmetic
    | _ => rfl
  refine ⟨?_, fun _ => ?_⟩
  · rw [rangeOf, related_of_not_sum notSum]
    exact interval
  · rw [linear_other atom arithmetic]
    exact Linear.reads_constant interval

theorem intervalOf_neg (operand : Expr) (span : Span) :
    intervalOf facts env (.unary .neg operand span) =
      (rangeOf facts env operand).negate := by
  rw [intervalOf.eq_def, subjectTerm_of_not_atom rfl,
    subjectRange_of_not_atom rfl]

theorem intervalOf_binary (op : BinaryOp) (lhs rhs : Expr) (span : Span) :
    intervalOf facts env (.binary op lhs rhs span) =
      match op with
      | .add => (rangeOf facts env lhs).add (rangeOf facts env rhs)
      | .sub => (rangeOf facts env lhs).sub (rangeOf facts env rhs)
      | .mul => (rangeOf facts env lhs).mul (rangeOf facts env rhs)
      | _ => .any := by
  cases op <;> rw [intervalOf.eq_def, subjectTerm_of_not_atom rfl,
    subjectRange_of_not_atom rfl]

section Operators

variable {lhs rhs operand : Expr} {span : Span} {x y : Int64}

theorem neg_sound
    (ih : ReadsSoundly facts env v operand x.toInt)
    (value : v.int facts.subject env operand = some x)
    (fits : InI64 (-x.toInt)) :
    ReadsSoundly facts env v (.unary .neg operand span) (-x.toInt) := by
  obtain ⟨range, reads⟩ := ih
  refine ⟨?_, fun exact_ => ?_⟩
  · rw [rangeOf, related_of_not_sum rfl, intervalOf_neg]
    exact Range.mem_negate range fits
  · rw [linear_neg]
    exact Linear.reads_negate (reads exact_.1) (exact_.2 x value)

theorem add_sound (admits : facts.Admits v)
    (exact_ : RangeExact facts env v (.binary .add lhs rhs span))
    (left : ReadsSoundly facts env v lhs x.toInt)
    (right : ReadsSoundly facts env v rhs y.toInt)
    (leftValue : v.int facts.subject env lhs = some x)
    (rightValue : v.int facts.subject env rhs = some y)
    (fits : InI64 (x.toInt + y.toInt)) :
    ReadsSoundly facts env v (.binary .add lhs rhs span) (x.toInt + y.toInt) := by
  have reads : LinearExact facts env v (.binary .add lhs rhs span) →
      (linear facts env (.binary .add lhs rhs span)).Reads v
        (x.toInt + y.toInt) := by
    rintro ⟨leftExact, rightExact, noClamp⟩
    rw [linear_add]
    exact Linear.reads_add (distinct_linear lhs) (distinct_linear rhs)
      (left.2 leftExact) (right.2 rightExact)
      (noClamp x leftValue y rightValue)
  refine ⟨mem_rangeOf_of_interval admits ?_ reads exact_.2.2.2, reads⟩
  rw [intervalOf_binary]
  exact Range.mem_add left.1 right.1 fits

theorem sub_sound (admits : facts.Admits v)
    (exact_ : RangeExact facts env v (.binary .sub lhs rhs span))
    (left : ReadsSoundly facts env v lhs x.toInt)
    (right : ReadsSoundly facts env v rhs y.toInt)
    (leftValue : v.int facts.subject env lhs = some x)
    (rightValue : v.int facts.subject env rhs = some y)
    (fits : InI64 (x.toInt - y.toInt)) :
    ReadsSoundly facts env v (.binary .sub lhs rhs span) (x.toInt - y.toInt) := by
  have reads : LinearExact facts env v (.binary .sub lhs rhs span) →
      (linear facts env (.binary .sub lhs rhs span)).Reads v
        (x.toInt - y.toInt) := by
    rintro ⟨leftExact, rightExact, noClamp⟩
    rw [linear_sub]
    exact Linear.reads_subtract (distinct_linear lhs) (distinct_linear rhs)
      (left.2 leftExact) (right.2 rightExact)
      (noClamp x leftValue y rightValue)
  have notMin : y ≠ Int64.minValue := by
    rintro rfl
    exact exact_.2.2.1 rfl rightValue
  have negFits : InI64 (-y.toInt) := by
    have inside := inI64_toInt y
    rw [inI64_iff] at inside ⊢
    have apart : y.toInt ≠ -9223372036854775808 := fun same =>
      notMin (Int64.toInt_inj.1 same)
    omega
  refine ⟨mem_rangeOf_of_interval admits ?_ reads exact_.2.2.2, reads⟩
  rw [intervalOf_binary]
  exact Range.mem_sub left.1 right.1 negFits fits

theorem mul_sound
    (left : ReadsSoundly facts env v lhs x.toInt)
    (right : ReadsSoundly facts env v rhs y.toInt)
    (leftValue : v.int facts.subject env lhs = some x)
    (rightValue : v.int facts.subject env rhs = some y)
    (fits : InI64 (x.toInt * y.toInt)) :
    ReadsSoundly facts env v (.binary .mul lhs rhs span) (x.toInt * y.toInt) := by
  have interval : x.toInt * y.toInt ∈
      intervalOf facts env (.binary .mul lhs rhs span) := by
    rw [intervalOf_binary]
    exact Range.mem_mul left.1 right.1 fits
  refine ⟨?_, fun ⟨leftExact, rightExact, noClamp⟩ => ?_⟩
  · rw [rangeOf, related_of_not_sum rfl]
    exact interval
  · rw [linear_mul]
    obtain ⟨scaleRight, scaleLeft⟩ := noClamp x leftValue y rightValue
    cases found : (linear facts env lhs).product (linear facts env rhs) with
    | none => exact Linear.reads_constant interval
    | some form =>
        rcases Linear.product_cases found with
          ⟨factor, constant, scaled⟩ | ⟨factor, constant, scaled⟩
        · rw [Linear.eq_constantValue (left.2 leftExact) constant, mul_comm]
          exact Linear.reads_scale (right.2 rightExact) scaled
            (scaleRight factor constant (by simp [scaled]))
        · rw [Linear.eq_constantValue (right.2 rightExact) constant]
          exact Linear.reads_scale (left.2 leftExact) scaled
            (scaleLeft factor constant (by simp [scaled]))

end Operators

/-- An expression lies in its range, and its exact form reads it. -/
theorem reading_sound (counts : env.CountsLengths) (admits : facts.Admits v)
    (expr : Expr) (exact_ : RangeExact facts env v expr) (x : Int64)
    (value : v.int facts.subject env expr = some x) :
    ReadsSoundly facts env v expr x.toInt := by
  induction expr using Valuation.int.induct generalizing x with
  | case1 literal span =>
      cases value
      refine plain_sound rfl rfl ?_
      rw [intervalOf.eq_def, subjectTerm_of_not_atom rfl,
        subjectRange_of_not_atom rfl]
      exact Range.mem_exactly.2 rfl
  | case2 name => exact atom_sound counts admits rfl value
  | case3 callee args span => exact atom_sound counts admits rfl value
  | case4 receiver name span =>
      refine plain_sound rfl rfl ?_
      rw [intervalOf.eq_def, subjectTerm_of_not_atom rfl,
        subjectRange_of_not_atom rfl]
      have limit : (Expr.field receiver name span).intLimit = some x := value
      simp only [limit]
      exact Range.mem_exactly.2 rfl
  | case5 operand span ih =>
      simp only [Valuation.int, Option.bind_eq_bind, Option.bind_eq_some_iff]
        at value
      obtain ⟨inner, innerValue, counted⟩ := value
      have same := checked_eq_some.1 counted
      rw [same]
      exact neg_sound (ih exact_ inner innerValue) innerValue
        (same ▸ inI64_toInt x)
  | case6 lhs rhs span left right =>
      simp only [Valuation.int, Option.bind_eq_bind, Option.bind_eq_some_iff]
        at value
      obtain ⟨a, leftValue, b, rightValue, counted⟩ := value
      have same := checked_eq_some.1 counted
      rw [same]
      exact add_sound admits exact_ (left exact_.1 a leftValue)
        (right exact_.2.1 b rightValue) leftValue rightValue
        (same ▸ inI64_toInt x)
  | case7 lhs rhs span left right =>
      simp only [Valuation.int, Option.bind_eq_bind, Option.bind_eq_some_iff]
        at value
      obtain ⟨a, leftValue, b, rightValue, counted⟩ := value
      have same := checked_eq_some.1 counted
      rw [same]
      exact sub_sound admits exact_ (left exact_.1 a leftValue)
        (right exact_.2.1 b rightValue) leftValue rightValue
        (same ▸ inI64_toInt x)
  | case8 lhs rhs span left right =>
      simp only [Valuation.int, Option.bind_eq_bind, Option.bind_eq_some_iff]
        at value
      obtain ⟨a, leftValue, b, rightValue, counted⟩ := value
      have same := checked_eq_some.1 counted
      rw [same]
      exact mul_sound (left exact_.1 a leftValue) (right exact_.2.1 b rightValue)
        leftValue rightValue (same ▸ inI64_toInt x)
  | case9 other int ident call field neg add sub mul =>
      unfold Valuation.int at value
      split at value <;> simp_all

end Reading

/-! ## Conditions -/

/-- An answer that does not say the opposite of what is the case. -/
def Truth.Right (answer : Truth) (actual : Bool) : Prop :=
  (answer = .always → actual = true) ∧ (answer = .never → actual = false)

namespace Truth

theorem right_always {actual : Bool} (holds : actual = true) :
    always.Right actual :=
  ⟨fun _ => holds, nofun⟩

theorem right_never {actual : Bool} (fails : actual = false) :
    never.Right actual :=
  ⟨nofun, fun _ => fails⟩

theorem right_of (actual : Bool) : (of actual).Right actual := by
  cases actual with
  | true => exact right_always rfl
  | false => exact right_never rfl

theorem right_unknown (reason : Reason) (actual : Bool) :
    (unknown reason).Right actual :=
  ⟨nofun, nofun⟩

theorem Right.negate {answer : Truth} {actual : Bool}
    (right : answer.Right actual) : answer.negate.Right (!actual) := by
  cases answer with
  | always => exact ⟨nofun, fun _ => by rw [right.1 rfl]; rfl⟩
  | never => exact ⟨fun _ => by rw [right.2 rfl]; rfl, nofun⟩
  | unknown reason => exact right_unknown reason _

/-- A false left side answers for the conjunction whatever the right side is. -/
theorem Right.and_false {left right : Truth} (leftRight : left.Right false) :
    (left.and right).Right false := by
  cases left with
  | always => exact absurd (leftRight.1 rfl) Bool.false_ne_true
  | never => exact ⟨nofun, fun _ => rfl⟩
  | unknown reason => cases right <;> first | exact right_never rfl | exact right_unknown _ _

theorem Right.and_true {left right : Truth} {actual : Bool}
    (leftRight : left.Right true) (rightRight : right.Right actual) :
    (left.and right).Right actual := by
  cases left with
  | never => exact absurd (leftRight.2 rfl) Bool.true_eq_false_eq_False
  | always => cases right <;> exact rightRight
  | unknown reason =>
      cases right with
      | never => exact ⟨nofun, fun _ => rightRight.2 rfl⟩
      | _ => exact right_unknown reason actual

theorem Right.or_true {left right : Truth} (leftRight : left.Right true) :
    (left.or right).Right true := by
  cases left with
  | never => exact absurd (leftRight.2 rfl) Bool.true_eq_false_eq_False
  | always => exact ⟨fun _ => rfl, nofun⟩
  | unknown reason =>
      cases right <;> first | exact right_always rfl | exact right_unknown _ _

theorem Right.or_false {left right : Truth} {actual : Bool}
    (leftRight : left.Right false) (rightRight : right.Right actual) :
    (left.or right).Right actual := by
  cases left with
  | always => exact absurd (leftRight.1 rfl) Bool.false_ne_true
  | never => cases right <;> exact rightRight
  | unknown reason =>
      cases right with
      | always => exact ⟨fun _ => rightRight.1 rfl, nofun⟩
      | _ => exact right_unknown reason actual

end Truth

section Conditions

variable {facts : Facts} {env : Env} {v : Valuation}

/-- The sign of a difference is the sign of the nearest word. -/
theorem settled_right {op : BinaryOp} {x y : Int} {actual : Bool}
    {low high : Int64} {reason : Reason}
    (compared : compareInts op x y = some actual)
    (lower : low.toInt ≤ Range.nearest (x - y))
    (upper : Range.nearest (x - y) ≤ high.toInt) :
    (settled op low high (.unknown reason)).Right actual := by
  have sign := Range.nearest_cases (x - y)
  generalize Range.nearest (x - y) = clamped at lower upper sign
  cases op <;> cases compared <;> unfold settled <;>
    simp only [Int64.lt_iff_toInt_lt, Int64.le_iff_toInt_le, gt_iff_lt, ge_iff_le,
      ← Int64.toInt_inj, Int64.toInt_zero] <;>
    (try split_ifs) <;>
    first
    | exact Truth.right_unknown _ _
    | exact Truth.right_always (decide_eq_true (by omega))
    | exact Truth.right_never (decide_eq_false (by omega))

/-- The linear form of a difference reads it, when both sides are in range and
nothing is clamped on the way. -/
theorem differenceForm_reads (counts : env.CountsLengths)
    (admits : facts.Admits v) {lhs rhs : Expr} {x y : Int64}
    (leftExact : RangeExact facts env v lhs)
    (rightExact : RangeExact facts env v rhs)
    (exact_ : DifferenceExact facts env v lhs rhs)
    (leftValue : v.int facts.subject env lhs = some x)
    (rightValue : v.int facts.subject env rhs = some y) :
    (differenceForm lhs rhs facts env).Reads v (x.toInt - y.toInt) := by
  obtain ⟨leftLinear, rightLinear, noClamp⟩ := exact_
  have left := reading_sound counts admits lhs leftExact x leftValue
  have right := reading_sound counts admits rhs rightExact y rightValue
  exact Linear.reads_subtract (distinct_linear lhs) (distinct_linear rhs)
    (left.2 leftLinear) (right.2 rightLinear) (noClamp x leftValue y rightValue)

/-- The nearest word to the difference of two values is in the range the
comparison works from. -/
theorem nearest_mem_differenceOf (counts : env.CountsLengths)
    (admits : facts.Admits v) {lhs rhs : Expr} {x y : Int64}
    (exact_ : CompareExact facts env v lhs rhs)
    (leftValue : v.int facts.subject env lhs = some x)
    (rightValue : v.int facts.subject env rhs = some y) :
    Range.nearest (x.toInt - y.toInt) ∈ differenceOf lhs rhs facts env := by
  obtain ⟨leftExact, rightExact, paired⟩ := exact_
  have leftMem := (reading_sound counts admits lhs leftExact x leftValue).1
  have rightMem := (reading_sound counts admits rhs rightExact y rightValue).1
  have spread := Range.nearest_mem_spread leftMem rightMem
  unfold differenceOf
  simp only
  split
  · next a b pair =>
      obtain ⟨noClamp, clears⟩ := paired (by simp [pair])
      have reads := differenceForm_reads counts admits leftExact rightExact
        noClamp leftValue rightValue
      have member := Range.nearest_mem_shift (admits.difference a b) reads
        (clears.1 a b pair)
      rw [Linear.rest, Linear.sum_pair pair, add_sub_cancel] at member
      exact Range.mem_meet.2 ⟨spread, member⟩
  · exact spread

theorem compare_right (counts : env.CountsLengths) (admits : facts.Admits v)
    {op : BinaryOp} {lhs rhs : Expr} {x y : Int64} {actual : Bool}
    (exact_ : CompareExact facts env v lhs rhs)
    (leftValue : v.int facts.subject env lhs = some x)
    (rightValue : v.int facts.subject env rhs = some y)
    (compared : compareInts op x.toInt y.toInt = some actual) :
    (compare op lhs rhs facts env).Right actual := by
  have leftMem := (reading_sound counts admits lhs exact_.1 x leftValue).1
  have rightMem := (reading_sound counts admits rhs exact_.2.1 y rightValue).1
  have inhabited :
      ¬ (rangeOf facts env lhs = .empty ∨ rangeOf facts env rhs = .empty) := by
    rintro (none_ | none_)
    · rw [none_] at leftMem
      exact leftMem
    · rw [none_] at rightMem
      exact rightMem
  obtain ⟨low, high, spread, lower, upper⟩ := Range.exists_bounds
    (nearest_mem_differenceOf counts admits exact_ leftValue rightValue)
  have signs {op : BinaryOp} {actual : Bool}
      (compared : compareInts op x.toInt y.toInt = some actual) :
      (compareSigns op lhs rhs facts env).Right actual := by
    rw [compareSigns, if_neg inhabited, spread]
    exact settled_right compared lower upper
  unfold compare
  by_cases isNe : op = .ne
  · subst isNe
    rw [if_pos rfl, if_neg inhabited, spread]
    have equal : compareInts .eq x.toInt y.toInt = some (!actual) := by
      cases compared
      simp [compareInts]
    have negated := (signs equal).negate
    rwa [Bool.not_not] at negated
  · rw [if_neg isNe]
    exact signs compared

theorem holds_comparison {op : BinaryOp} (notAnd : op ≠ .and) (notOr : op ≠ .or)
    (lhs rhs : Expr) (span : Span) :
    holds facts env (.binary op lhs rhs span) = compare op lhs rhs facts env := by
  cases op <;> first | rfl | contradiction

/-- What the prover answers is right, whenever nothing is clamped. -/
theorem holds_right (counts : env.CountsLengths) (admits : facts.Admits v)
    (condition : Expr) (exact_ : CondExact facts env v condition)
    (actual : Bool) (value : v.bool facts.subject env condition = some actual) :
    (holds facts env condition).Right actual := by
  induction condition using Valuation.bool.induct generalizing actual with
  | case1 literal span =>
      cases value
      exact Truth.right_of literal
  | case2 operand span ih =>
      obtain ⟨inner, innerValue, rfl⟩ := Option.map_eq_some_iff.1 value
      exact (ih exact_ inner innerValue).negate
  | case3 lhs rhs span left right =>
      obtain ⟨first, firstValue, rest⟩ := Option.bind_eq_some_iff.1 value
      have firstRight := left exact_.1 first firstValue
      cases first with
      | false =>
          cases rest
          exact firstRight.and_false
      | true => exact firstRight.and_true (right (exact_.2 firstValue) actual rest)
  | case4 lhs rhs span left right =>
      obtain ⟨first, firstValue, rest⟩ := Option.bind_eq_some_iff.1 value
      have firstRight := left exact_.1 first firstValue
      cases first with
      | true =>
          cases rest
          exact firstRight.or_true
      | false => exact firstRight.or_false (right (exact_.2 firstValue) actual rest)
  | case5 op lhs rhs span notAnd notOr =>
      obtain ⟨x, leftValue, y, rightValue, compared⟩ :=
        v.comparison_values notAnd notOr value
      rw [CondExact] at exact_
      rw [holds_comparison notAnd notOr]
      exact compare_right counts admits exact_ leftValue rightValue compared
      all_goals assumption
  | case6 other literal notNot notAnd notOr notComparison =>
      unfold Valuation.bool at value
      split at value
      · exact (literal _ _ rfl).elim
      · exact (notNot _ _ rfl).elim
      · exact (notAnd _ _ _ rfl).elim
      · exact (notOr _ _ _ rfl).elim
      · exact (notComparison _ _ _ _ rfl).elim
      · cases value

end Conditions

/-! ## Where clamping answers wrongly -/

/-- Names by their spelling: `a` and `b`, and nothing else in scope. -/
def namesAB : Env where
  defOf
    | .ident name =>
        if name.name = "a" then some 0
        else if name.name = "b" then some 1
        else none
    | _ => none
  length := none
  call _ := .any
  refined _ := .any

def nameExpr (name : String) : Expr := .ident ⟨name, .at 0⟩

def intMin : Expr := .field (nameExpr "Int") ⟨"min", .at 0⟩ (.at 0)

/-- `a + Int.min < b`. -/
def farBelow : Expr :=
  .binary .lt (.binary .add (nameExpr "a") intMin (.at 0)) (nameExpr "b") (.at 0)

/-- `a` at the top of `i64` and everything else at the bottom, lengths at
nought. -/
def farApart : Valuation where
  term
    | .name 0 => Int64.maxValue
    | .name _ => Int64.minValue
    | .length _ => 0
  subject := 0
  subjectLength := 0
  length_nonneg := zero_length_nonneg

/-- Every name at nought. -/
def origin : Valuation where
  term _ := 0
  subject := 0
  subjectLength := 0
  length_nonneg := zero_length_nonneg

section Edge

theorem termOf_nameAB {name : String} {def_ : DefId}
    (known : namesAB.defOf (nameExpr name) = some def_) :
    termOf (nameExpr name) namesAB = some (.name def_) := by
  rw [nameExpr] at known ⊢
  rw [termOf, known]
  rfl

theorem linear_nameAB {facts : Facts} (noSubject : facts.subject = none)
    (name : String) (def_ : DefId)
    (known : namesAB.defOf (nameExpr name) = some def_) :
    linear facts namesAB (nameExpr name) = .name (.name def_) :=
  linear_term noSubject rfl (termOf_nameAB known)

theorem rangeOf_nameAB (name : String) (def_ : DefId)
    (known : namesAB.defOf (nameExpr name) = some def_) :
    rangeOf Facts.new namesAB (nameExpr name) = .any := by
  have read := termOf_nameAB known
  rw [rangeOf, related_of_not_sum rfl, nameExpr, intervalOf.eq_def]
  rw [nameExpr] at read
  simp only [read]
  rfl

theorem intervalOf_intMin :
    intervalOf Facts.new namesAB intMin = .exactly Int64.minValue := by
  rw [intMin, intervalOf.eq_def]
  rfl

theorem linear_intMin :
    linear Facts.new namesAB intMin = .constant (.exactly Int64.minValue) := by
  rw [linear_other rfl rfl, intervalOf_intMin]

end Edge

end Deed.Typeck
