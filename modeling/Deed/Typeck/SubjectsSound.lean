import Deed.Typeck.Soundness
import Deed.Typeck.Subjects

/-!
# What a refinement admits is sound

What a predicate admits holds everything that the predicate is true of, wherever the bounds it
is read from are not clamped.
-/

namespace Deed.Typeck

open Deed.Ast Deed.Library

/-- Facts that say something of the subject alone, and that of what is described. -/
structure Facts.Bare (facts : Facts) (described : Described) : Prop where
  unrecorded : ∀ term, facts.get term = unrecorded term
  nameless : ∀ subject, facts.subject = some subject → subject.name = none
  inside : ∀ subject, facts.subject = some subject → described.Inside subject

section Reading

variable {facts : Facts} {env : Env} {subject : String} {described : Described}
  {atom : Expr → Option Int64}

theorem subjectTerm_bare (bare : facts.Bare described) (expr : Expr) :
    subjectTerm expr facts env = none := by
  unfold subjectTerm
  cases present : facts.subject with
  | none => rfl
  | some subject =>
      rw [Option.bind_some, bare.nameless subject present]

/-! ## No names, so no relations -/

/-- The form of a quantity counts no names. -/
theorem linear_terms (bare : facts.Bare described) (reads : Reads env subject described atom)
    (expr : Expr) (x : Int64) (value : quantity atom expr = some x) :
    (linear facts env expr).terms = [] := by
  have read_atom (expr : Expr) (shape : isAtom expr = true) (unnamed : termOf expr env = none) :
      (linear facts env expr).terms = [] := by
    rw [linear_atom shape, subjectTerm_bare bare, unnamed]
    cases subjectRange expr facts env <;> rfl
  have scaled {form : Linear} {factor : Int64} {scaled : Linear} (nameless : form.terms = [])
      (found : form.scale factor = some scaled) : scaled.terms = [] := by
    simp only [Linear.scale, nameless, Linear.scaleTerms, Option.bind_eq_bind, Option.bind_some,
      Option.some.injEq] at found
    rw [← found]
  have negated {form : Linear} (nameless : form.terms = []) : form.negate.terms = [] := by
    rw [Linear.negate]
    cases found : form.scale (-1) with
    | none => rfl
    | some negative => exact scaled nameless found
  have added {left right : Linear} (leftNameless : left.terms = [])
      (rightNameless : right.terms = []) : (left.add right).terms = [] := by
    simp only [Linear.add, leftNameless, rightNameless, List.foldl_nil]
  induction expr using quantity.induct generalizing x with
  | case1 literal span => rw [linear_other rfl rfl]; rfl
  | case2 name => exact read_atom _ rfl (reads.unnamed _ x value)
  | case3 callee args span => exact read_atom _ rfl (reads.unnamed _ x value)
  | case4 receiver name span => rw [linear_other rfl rfl]; rfl
  | case5 operand span ih =>
      simp only [quantity, Option.bind_eq_bind, Option.bind_eq_some_iff] at value
      obtain ⟨inner, innerValue, -⟩ := value
      rw [linear_neg]
      exact negated (ih inner innerValue)
  | case6 op lhs rhs span left right =>
      simp only [quantity, Option.bind_eq_bind, Option.bind_eq_some_iff] at value
      obtain ⟨a, leftValue, b, rightValue, -⟩ := value
      have leftNameless := left a leftValue
      have rightNameless := right b rightValue
      cases op with
      | add =>
          rw [linear_add]
          exact added leftNameless rightNameless
      | sub =>
          rw [linear_sub]
          exact added leftNameless (negated rightNameless)
      | mul =>
          rw [linear_mul]
          cases found : (linear facts env lhs).product (linear facts env rhs) with
          | none => rfl
          | some form =>
              rcases Linear.product_cases found with ⟨_, -, scale⟩ | ⟨_, -, scale⟩
              · exact scaled rightNameless scale
              · exact scaled leftNameless scale
      | _ => rw [linear_other rfl rfl]; rfl
  | case7 other int ident call field neg binary =>
      unfold quantity at value
      split at value
      · exact (int _ _ rfl).elim
      · exact (ident _ rfl).elim
      · exact (call _ _ _ rfl).elim
      · exact (field _ _ _ rfl).elim
      · exact (neg _ _ rfl).elim
      · exact (binary _ _ _ _ rfl).elim
      · cases value

theorem related_none (bare : facts.Bare described) (reads : Reads env subject described atom)
    {expr : Expr} {x : Int64} (value : quantity atom expr = some x) :
    related facts env expr = none := by
  have nameless := linear_terms bare reads expr x value
  rw [related]
  split
  · simp only [Linear.pair, Linear.total, nameless, List.foldl_nil, List.filter_nil]
  · rfl

theorem rangeOf_bare (bare : facts.Bare described) (reads : Reads env subject described atom)
    {expr : Expr} {x : Int64} (value : quantity atom expr = some x) :
    rangeOf facts env expr = intervalOf facts env expr := by
  rw [rangeOf, related_none bare reads value]

/-! ## A plain quantity is in its range -/

/-- A name is in its range: it is the subject, or any `i64` at all. -/
theorem mem_name (bare : facts.Bare described) (reads : Reads env subject described atom)
    {name : Ident} {x : Int64} (plain : name.name = "value" → subject = "value")
    (value : atom (.ident name) = some x) : x.toInt ∈ intervalOf facts env (.ident name) := by
  rw [intervalOf.eq_def, subjectTerm_bare bare]
  simp only
  cases about : subjectRange (.ident name) facts env with
  | none =>
      simp only [reads.unnamed _ x value]
      exact inI64_toInt x
  | some range =>
      simp only [subjectRange, isSubject, isSubjectLength, Bool.false_eq_true, if_false] at about
      split at about
      · cases about
      · next current present =>
          split at about
          · next isValue =>
              cases about
              have spelled : name.name = "value" := by simpa using isValue
              have isInt := reads.named name x (by rw [spelled, plain spelled]) value
              have inside := (bare.inside current present).2.2
              rw [isInt] at inside
              exact inside
          · cases about

theorem mem_lengths {length : Int64} (nonneg : 0 ≤ length.toInt) :
    length.toInt ∈ Range.between 0 Int64.maxValue :=
  Range.mem_between.2 ⟨nonneg, (inI64_toInt length).2⟩

/-- The length of the subject is in its range, narrowed or not. -/
theorem mem_call (counts : env.CountsLengths) (bare : facts.Bare described)
    (reads : Reads env subject described atom) {callee : Expr} {args : List Expr} {span : Span}
    {x : Int64} (value : atom (.call callee args span) = some x) :
    x.toInt ∈ intervalOf facts env (.call callee args span) := by
  obtain ⟨isLength, name, nonneg, rfl, -, counted⟩ := reads.call callee args span x value
  have atLeast := mem_lengths nonneg
  rw [intervalOf.eq_def, subjectTerm_bare bare]
  simp only
  cases about : subjectRange (.call callee [.ident name] span) facts env with
  | none =>
      have bounded : x.toInt ∈ lengthOf (.ident name) facts env := by
        simp only [lengthOf]
        split
        · rw [bare.unrecorded]
          exact atLeast
        · exact atLeast
      have landed := isLength
      simp only [isLengthCall, Bool.and_eq_true, beq_iff_eq] at landed
      simp only [counts callee landed.1.1 landed.2, Guarantee.landing_of, isLength, if_true,
        List.head?_cons]
      exact Range.mem_meet.2 ⟨atLeast, bounded⟩
  | some range =>
      simp only [subjectRange, isSubject, Bool.false_eq_true, if_false] at about
      split at about
      · cases about
      · next current present =>
          split at about
          · cases about
            have inside := (bare.inside current present).2.2
            rw [counted] at inside
            exact inside
          · cases about

theorem neg_fits {y : Int64} (apart : y ≠ Int64.minValue) : InI64 (-y.toInt) := by
  have inside := inI64_toInt y
  rw [inI64_iff] at inside ⊢
  have notMin : y.toInt ≠ -9223372036854775808 := fun same =>
    apart (Int64.toInt_inj.1 same)
  omega

/-- The value of a plain quantity is in the range the quantity is read as. -/
theorem mem_rangeOf (counts : env.CountsLengths) (bare : facts.Bare described)
    (reads : Reads env subject described atom) (expr : Expr) (x : Int64)
    (plain : Plain subject atom expr) (value : quantity atom expr = some x) :
    x.toInt ∈ rangeOf facts env expr := by
  rw [rangeOf_bare bare reads value]
  induction expr using quantity.induct generalizing x with
  | case1 literal span =>
      cases value
      rw [intervalOf.eq_def, subjectTerm_of_not_atom rfl, subjectRange_of_not_atom rfl]
      exact Range.mem_exactly.2 rfl
  | case2 name => exact mem_name bare reads plain value
  | case3 callee args span => exact mem_call counts bare reads value
  | case4 receiver name span =>
      have limit : (Expr.field receiver name span).intLimit = some x := value
      rw [intervalOf.eq_def, subjectTerm_of_not_atom rfl, subjectRange_of_not_atom rfl]
      simp only [limit]
      exact Range.mem_exactly.2 rfl
  | case5 operand span ih =>
      simp only [quantity, Option.bind_eq_bind, Option.bind_eq_some_iff] at value
      obtain ⟨inner, innerValue, counted⟩ := value
      have same := checked_eq_some.1 counted
      rw [intervalOf_neg, rangeOf_bare bare reads innerValue, same]
      exact Range.mem_negate (ih inner plain innerValue) (same ▸ inI64_toInt x)
  | case6 op lhs rhs span left right =>
      simp only [quantity, Option.bind_eq_bind, Option.bind_eq_some_iff] at value
      obtain ⟨a, leftValue, b, rightValue, computed⟩ := value
      obtain ⟨leftPlain, rightPlain, unclamped⟩ := plain
      have leftMem := left a leftPlain leftValue
      have rightMem := right b rightPlain rightValue
      rw [intervalOf_binary, rangeOf_bare bare reads leftValue,
        rangeOf_bare bare reads rightValue]
      cases op with
      | add =>
          have same := checked_eq_some.1 computed
          rw [same]
          exact Range.mem_add leftMem rightMem (same ▸ inI64_toInt x)
      | sub =>
          have same := checked_eq_some.1 computed
          have apart : b ≠ Int64.minValue := fun clamped =>
            unclamped rfl (clamped ▸ rightValue)
          rw [same]
          exact Range.mem_sub leftMem rightMem (neg_fits apart) (same ▸ inI64_toInt x)
      | mul =>
          have same := checked_eq_some.1 computed
          rw [same]
          exact Range.mem_mul leftMem rightMem (same ▸ inI64_toInt x)
      | _ => exact inI64_toInt x
  | case7 other int ident call field neg binary =>
      unfold quantity at value
      split at value
      · exact (int _ _ rfl).elim
      · exact (ident _ rfl).elim
      · exact (call _ _ _ rfl).elim
      · exact (field _ _ _ rfl).elim
      · exact (neg _ _ rfl).elim
      · exact (binary _ _ _ _ rfl).elim
      · cases value

/-! ## One comparison -/

theorem Described.Inside.start (described : Described) : described.Inside (.of .any) := by
  refine ⟨nofun, nofun, ?_⟩
  cases described with
  | int value => exact inI64_toInt value
  | counted length nonneg => exact mem_lengths nonneg

theorem ne_empty_of_mem {range : Range} {x : Int} (member : x ∈ range) : range ≠ .empty := by
  rintro rfl
  exact Range.not_mem_empty x member

/-- The half of the subject that a comparison is about, as a number. -/
def Described.half : Described → About → Option Int64
  | .int value, .value => some value
  | .counted length _, .length => some length
  | _, _ => none

/-- Narrowing the half that is described to a range it is in. -/
theorem Described.Inside.narrow {current : Subject} {about : About} {narrowed : Range} {x : Int64}
    (inside : described.Inside current) (half : described.half about = some x)
    (member : x.toInt ∈ narrowed) : described.Inside (current.narrow about narrowed) := by
  obtain ⟨rangeKept, lengthKept, holds⟩ := inside
  cases described with
  | int value =>
      cases about with
      | value =>
          cases half
          have met := Range.mem_meet.2 ⟨holds, member⟩
          exact ⟨ne_empty_of_mem met, lengthKept, met⟩
      | length => cases half
  | counted length nonneg =>
      cases about with
      | value => cases half
      | length =>
          cases half
          have met := Range.mem_meet.2 ⟨holds, member⟩
          exact ⟨rangeKept, ne_empty_of_mem met, met⟩

/-- A side that is the subject has the value of the half it is about. -/
theorem aboutOf_half (reads : Reads env subject described atom) {expr : Expr} {about : About}
    {x : Int64} (found : aboutOf env subject expr = some about)
    (value : quantity atom expr = some x) : described.half about = some x := by
  unfold aboutOf at found
  split at found
  · next named =>
      cases found
      cases expr with
      | ident name =>
          rw [quantity] at value
          rw [reads.named name x (by simpa [namesSubject] using named) value]
          rfl
      | _ => cases named
  · split at found
    · next callee args span apart =>
        split at found
        · cases found
          rw [quantity] at value
          obtain ⟨-, _, _, -, -, counted⟩ := reads.call callee args span x value
          rw [counted]
          rfl
        · cases found
    · cases found

/-- What a comparison that is true pins its left side to holds the left side. -/
theorem mem_boundedBy {op : BinaryOp} {low high x y : Int64} {narrowed : Range}
    (bound : boundedBy op low high = some narrowed)
    (right : y.toInt ∈ Range.bounded low high) (holds : comparison op x y = some true) :
    x.toInt ∈ narrowed := by
  have inside := inI64_toInt x
  have rightInside := inI64_toInt y
  have lowInside := inI64_toInt low
  have highInside := inI64_toInt high
  rw [Range.mem_bounded] at right
  cases op <;> simp only [boundedBy, reduceCtorEq] at bound <;>
    simp only [comparison, Option.some.injEq, decide_eq_true_eq, Int64.lt_iff_toInt_lt,
      Int64.le_iff_toInt_le] at holds
  case lt =>
    split at bound
    · next limit reached =>
        cases bound
        have limit := checked_eq_some.1 reached
        exact Range.mem_between.2 ⟨inside.1, by omega⟩
    · next past =>
        exact absurd (inI64_iff.2 (by rw [inI64_iff] at *; omega)) (checked_eq_none.1 past)
  case gt =>
    split at bound
    · next limit reached =>
        cases bound
        have limit := checked_eq_some.1 reached
        exact Range.mem_between.2 ⟨by omega, inside.2⟩
    · next past =>
        exact absurd (inI64_iff.2 (by rw [inI64_iff] at *; omega)) (checked_eq_none.1 past)
  case le =>
    cases bound
    exact Range.mem_between.2 ⟨inside.1, by omega⟩
  case ge =>
    cases bound
    exact Range.mem_between.2 ⟨by omega, inside.2⟩
  case eq =>
    cases bound
    subst holds
    exact Range.mem_between.2 right

theorem comparison_flipped {op other : BinaryOp} (found : flipped op = some other)
    (x y : Int64) : comparison other y x = comparison op x y := by
  cases op <;> cases found <;> simp only [comparison, eq_comm, ne_comm]

theorem comparison_negated {op other : BinaryOp} (found : negated op = some other)
    (x y : Int64) : comparison other x y = (comparison op x y).map not := by
  cases op <;> cases found <;>
    simp only [comparison, Option.map_some, ← decide_not, Int64.not_lt, Int64.not_le, not_not]

/-- Nothing is read from an operator that bounds nothing. -/
theorem narrowSubject_unread {op : BinaryOp} (unread : ∀ low high, boundedBy op low high = none)
    (left right : Expr) (facts : Facts) : narrowSubject env subject op left right facts = facts := by
  unfold narrowSubject
  split
  · rfl
  · split
    · rfl
    · rw [unread]

/-- A comparison that is true narrows the subject to what is described. -/
theorem narrowSubject_bare (counts : env.CountsLengths) (bare : facts.Bare described)
    (reads : Reads env subject described atom) {op : BinaryOp} {left right : Expr} {x y : Int64}
    (plain : (aboutOf env subject left).isSome → Plain subject atom right)
    (leftValue : quantity atom left = some x) (rightValue : quantity atom right = some y)
    (holds : comparison op x y = some true) :
    (narrowSubject env subject op left right facts).Bare described := by
  unfold narrowSubject
  cases found : aboutOf env subject left with
  | none => exact bare
  | some about =>
      have half := aboutOf_half reads found leftValue
      have rightMem := mem_rangeOf counts bare reads right y (plain (by rw [found]; rfl)) rightValue
      obtain ⟨low, high, range, ends⟩ := Range.exists_bounds rightMem
      simp only [range, Range.bounds]
      cases bound : boundedBy op low high with
      | none => exact bare
      | some narrowed =>
          have member := mem_boundedBy bound ends holds
          have start : described.Inside (facts.subject.getD (.of .any)) ∧
              (facts.subject.getD (.of .any)).name = none := by
            cases present : facts.subject with
            | none => exact ⟨Described.Inside.start described, rfl⟩
            | some current => exact ⟨bare.inside current present, bare.nameless current present⟩
          refine ⟨bare.unrecorded, ?_, ?_⟩
          · rintro _ ⟨⟩
            cases about <;> exact start.2
          · rintro _ ⟨⟩
            exact start.1.narrow half member

/-- A comparison that is true, read from both sides. -/
theorem compareSubject_bare (counts : env.CountsLengths) (bare : facts.Bare described)
    (reads : Reads env subject described atom) {op : BinaryOp} {lhs rhs : Expr} {x y : Int64}
    (plain : op ≠ .ne → ((aboutOf env subject lhs).isSome → Plain subject atom rhs) ∧
      ((aboutOf env subject rhs).isSome → Plain subject atom lhs))
    (leftValue : quantity atom lhs = some x) (rightValue : quantity atom rhs = some y)
    (holds : comparison op x y = some true) :
    (compareSubject env subject op lhs rhs facts).Bare described := by
  unfold compareSubject
  by_cases isNe : op = .ne
  · subst isNe
    simp only [flipped, narrowSubject_unread fun _ _ => (rfl : boundedBy .ne _ _ = none)]
    exact bare
  · obtain ⟨rightPlain, leftPlain⟩ := plain isNe
    have once := narrowSubject_bare counts bare reads rightPlain leftValue rightValue holds
    cases found : flipped op with
    | none => exact once
    | some other =>
        exact narrowSubject_bare counts once reads leftPlain rightValue leftValue
          ((comparison_flipped found x y).trans holds)

/-- A comparison has a value when both sides do. -/
theorem predicate_comparison {op : BinaryOp} {lhs rhs : Expr} {span : Span} {actual : Bool}
    (notAnd : op ≠ .and) (notOr : op ≠ .or)
    (value : predicate atom (.binary op lhs rhs span) = some actual) :
    ∃ x, quantity atom lhs = some x ∧ ∃ y, quantity atom rhs = some y ∧
      comparison op x y = some actual := by
  rw [predicate] at value
  · simpa only [Option.bind_eq_bind, Option.bind_eq_some_iff] using value
  · exact notAnd
  · exact notOr

/-- What a condition that comes out `whenTrue` tells of the subject holds of it. -/
theorem applySubjectNarrowing_bare (counts : env.CountsLengths)
    (reads : Reads env subject described atom) (expr : Expr) (facts : Facts) (whenTrue : Bool)
    (bare : facts.Bare described) (plain : PlainBounds env subject atom expr whenTrue)
    (value : predicate atom expr = some whenTrue) :
    (applySubjectNarrowing env subject expr facts whenTrue).Bare described := by
  induction expr, facts, whenTrue using applySubjectNarrowing.induct env subject with
  | case1 operand span facts whenTrue ih =>
      rw [applySubjectNarrowing]
      rw [predicate] at value
      obtain ⟨inner, innerValue, flipped_⟩ := Option.map_eq_some_iff.1 value
      refine ih bare plain ?_
      rw [innerValue, ← flipped_, Bool.not_not]
  | case2 lhs rhs span facts left right =>
      rw [applySubjectNarrowing]
      simp only [predicate, Option.bind_eq_bind, Option.bind_eq_some_iff] at value
      obtain ⟨first, leftValue, rest⟩ := value
      cases first with
      | false => cases rest
      | true => exact right (left bare plain.1 leftValue) plain.2 rest
  | case3 op lhs rhs span facts whenTrue notBoth effective found =>
      rw [applySubjectNarrowing.eq_3 _ _ _ _ _ _ _ _ notBoth]
      simp only [found]
      rw [PlainBounds.eq_3 _ _ _ _ _ _ _ _ notBoth, found] at plain
      by_cases isOr : op = .or
      · -- `||` narrows nothing, and its denial is not a comparison either
        subst isOr
        cases whenTrue with
        | true =>
            cases found
            simp only [compareSubject, flipped,
              narrowSubject_unread fun _ _ => (rfl : boundedBy .or _ _ = none)]
            exact bare
        | false => cases found
      · have notAnd : op ≠ .and := by
          rintro rfl
          cases whenTrue with
          | true => exact notBoth rfl rfl
          | false => cases found
        obtain ⟨x, leftValue, y, rightValue, compared⟩ :=
          predicate_comparison notAnd isOr value
        have holds : comparison effective x y = some true := by
          cases whenTrue with
          | true =>
              cases found
              exact compared
          | false => rw [comparison_negated found, compared]; rfl
        exact compareSubject_bare counts bare reads
          (fun apart => plain (fun same => apart (Option.some.inj same)))
          leftValue rightValue holds
  | case4 op lhs rhs span facts whenTrue notBoth found =>
      rw [applySubjectNarrowing.eq_3 _ _ _ _ _ _ _ _ notBoth]
      simp only [found]
      exact bare
  | case5 expr facts whenTrue notNot notAnd notBinary =>
      rw [applySubjectNarrowing.eq_4 _ _ _ _ _ notNot notBinary]
      · exact bare
      · exact notAnd

end Reading

/-! ## What a condition admits -/

theorem Facts.new_bare (described : Described) : Facts.new.Bare described where
  unrecorded _ := rfl
  nameless _ absent := nomatch absent
  inside _ absent := nomatch absent

theorem blind_counts : Env.blind.CountsLengths := nofun

/-- What a condition tells of the subject holds of what it is true of. -/
theorem subject_inside {env : Env} {subject : String} {described : Described}
    {atom : Expr → Option Int64} {condition : Expr} (counts : env.CountsLengths)
    (reads : Reads env subject described atom)
    (plain : PlainBounds env subject atom condition true)
    (holds : predicate atom condition = some true) :
    described.Inside
      ((applySubjectNarrowing env subject condition Facts.new true).subject.getD (.of .any)) := by
  have bare := applySubjectNarrowing_bare counts reads condition Facts.new true
    (Facts.new_bare described) plain holds
  cases present : (applySubjectNarrowing env subject condition Facts.new true).subject with
  | none => exact Described.Inside.start described
  | some current => exact bare.inside current present

/-- A reading that knows some names and no calls. -/
def spelled (names : List (String × Int64)) : Expr → Option Int64
  | .ident name => Assoc.find? names name.name
  | _ => none

theorem spelled_reads {names : List (String × Int64)} {subject : String} {x : Int64}
    (described : ∀ y, Assoc.find? names subject = some y → y = x) :
    Reads Env.blind subject (.int x) (spelled names) where
  named name y same value := by
    rw [spelled, same] at value
    rw [described y value]
  call _ _ _ _ value := nomatch value
  unnamed expr y value := by
    cases expr with
    | ident name => rfl
    | _ => cases value

/-- `length` and nothing else in scope. -/
def lengthInScope : Env where
  defOf
    | .ident name => if name.name = "length" then some 0 else none
    | _ => none
  length := some 0
  call _ := ⟨.of (.between 0 Int64.maxValue), .any⟩
  refined _ := .any

/-- `length(value) >= 1 && 3 > length(value)`. -/
def shortAndFull : Expr :=
  let counted := .call (nameExpr "length") [nameExpr "value"] (.at 0)
  .binary .and (.binary .ge counted (.int 1 (.at 0)) (.at 0))
    (.binary .gt (.int 3 (.at 0)) counted (.at 0)) (.at 0)

/-- `!(result < 5)`. -/
def atLeastFive : Expr :=
  .unary .not (.binary .lt (nameExpr "result") (.int 5 (.at 0)) (.at 0)) (.at 0)

theorem length_reads {length : Int64} (nonneg : 0 ≤ length.toInt) :
    Reads lengthInScope "value" (.counted length nonneg) fun expr =>
      if isSubjectLength expr lengthInScope then some length else none where
  named name x _ value := nomatch value
  call callee args span x value := by
    simp only [isSubjectLength, Bool.and_eq_true, Option.ite_none_right_eq_some,
      Option.some.injEq] at value
    obtain ⟨⟨isLength, isValue⟩, rfl⟩ := value
    have one := isLength
    simp only [isLengthCall, Bool.and_eq_true, beq_iff_eq] at one
    obtain ⟨arg, rfl⟩ := List.length_eq_one_iff.1 one.1.2
    cases arg with
    | ident name => exact ⟨isLength, name, nonneg, rfl, by simpa [isSubject] using isValue, rfl⟩
    | _ => cases isValue
  unnamed expr x value := by
    simp only [Option.ite_none_right_eq_some] at value
    obtain ⟨isLength, -⟩ := value
    cases expr with
    | call callee args span =>
        simp only [isSubjectLength, Bool.and_eq_true] at isLength
        obtain ⟨isLength, isValue⟩ := isLength
        rw [termOf, if_pos isLength]
        split
        · next name head =>
            have spelled : name.name = "value" := by simpa [head, isSubject] using isValue
            simp [lengthInScope, spelled]
        · rfl
    | _ => cases isLength

/-- `value == -1 - Int.min`. -/
def pastTheEdge : Expr :=
  .binary .eq (nameExpr "value")
    (.binary .sub (.unary .neg (.int 1 (.at 0)) (.at 0)) intMin (.at 0)) (.at 0)

/-- `result >= 5 && result > value`. -/
def aboveAnArgument : Expr :=
  .binary .and (.binary .ge (nameExpr "result") (.int 5 (.at 0)) (.at 0))
    (.binary .gt (nameExpr "result") (nameExpr "value") (.at 0)) (.at 0)

/-- The negation of `Int.min` is clamped, so the bound comes out one too low. -/
theorem rangeOf_pastTheEdge :
    rangeOf Facts.new Env.blind
        (.binary .sub (.unary .neg (.int 1 (.at 0)) (.at 0)) intMin (.at 0)) =
      .exactly (Int64.maxValue - 1) := by
  have reads : Reads Env.blind "value" (.int Int64.maxValue)
      (spelled [("value", Int64.maxValue)]) := spelled_reads (by rintro y ⟨⟩; rfl)
  have one : rangeOf Facts.new Env.blind (.int 1 (.at 0)) = .exactly 1 := by
    rw [rangeOf, related_of_not_sum rfl, intervalOf.eq_def]
    rfl
  have minusOne : rangeOf Facts.new Env.blind (.unary .neg (.int 1 (.at 0)) (.at 0)) =
      .exactly (-1) := by
    rw [rangeOf, related_of_not_sum rfl, intervalOf_neg, one]
    rfl
  have least : rangeOf Facts.new Env.blind intMin = .exactly Int64.minValue := by
    rw [rangeOf, related_of_not_sum rfl, intMin, intervalOf.eq_def]
    rfl
  rw [rangeOf_bare (Facts.new_bare _) reads (x := Int64.maxValue) (by decide),
    intervalOf_binary]
  simp only [minusOne, least]
  rfl

theorem admittedBy_pastTheEdge :
    (admittedBy pastTheEdge Env.blind).range = .exactly (Int64.maxValue - 1) := by
  have narrowed : applySubjectNarrowing Env.blind "value" pastTheEdge Facts.new true =
      { Facts.new with
        subject := some ((Subject.of .any).narrow .value (.exactly (Int64.maxValue - 1))) } := by
    have notBoth : true = true → BinaryOp.eq = .and → False := nofun
    rw [pastTheEdge, applySubjectNarrowing.eq_3 _ _ _ _ _ _ _ _ notBoth]
    simp only [if_true, compareSubject, flipped]
    have about : aboutOf Env.blind "value" (nameExpr "value") = some .value := rfl
    have apart : aboutOf Env.blind "value" (.binary .sub (.unary .neg (.int 1 (.at 0)) (.at 0))
      intMin (.at 0)) = none := rfl
    simp only [narrowSubject, about, apart, rangeOf_pastTheEdge]
    rfl
  rw [admittedBy, narrowed]
  decide

/-- The second bound is read against the range of the result, so a result that is not above its
own lower bound is left out, whatever the argument is. -/
theorem rangeOfSubject_aboveAnArgument :
    rangeOfSubject aboveAnArgument "result" = .between 6 Int64.maxValue := by
  have five (facts : Facts) : rangeOf facts Env.blind (.int 5 (.at 0)) = .exactly 5 := by
    rw [rangeOf, related_of_not_sum rfl, intervalOf.eq_def, subjectTerm_of_not_atom rfl,
      subjectRange_of_not_atom rfl]
  have first : applySubjectNarrowing Env.blind "result"
      (.binary .ge (nameExpr "result") (.int 5 (.at 0)) (.at 0)) Facts.new true =
        { Facts.new with subject := some (.of (.between 5 Int64.maxValue)) } := by
    have notBoth : true = true → BinaryOp.ge = .and → False := by decide
    have about : aboutOf Env.blind "result" (nameExpr "result") = some .value := rfl
    have apart : aboutOf Env.blind "result" (.int 5 (.at 0)) = none := rfl
    rw [applySubjectNarrowing.eq_3 _ _ _ _ _ _ _ _ notBoth]
    simp only [if_true, compareSubject, flipped, narrowSubject, about, apart, five]
    rfl
  have argument : rangeOf { Facts.new with subject := some (.of (.between 5 Int64.maxValue)) }
      Env.blind (nameExpr "value") = .between 5 Int64.maxValue := by
    rw [rangeOf, related_of_not_sum rfl, nameExpr, intervalOf.eq_def]
    rfl
  have notBoth : true = true → BinaryOp.gt = .and → False := by decide
  have about : aboutOf Env.blind "result" (nameExpr "result") = some .value := rfl
  have apart : aboutOf Env.blind "result" (nameExpr "value") = none := rfl
  rw [rangeOfSubject, aboveAnArgument, applySubjectNarrowing.eq_2, first,
    applySubjectNarrowing.eq_3 _ _ _ _ _ _ _ _ notBoth]
  simp only [if_true, compareSubject, flipped, narrowSubject, about, apart, argument]
  rfl

end Deed.Typeck
