import Deed.Typeck.NarrowingSound
import Deed.Typeck.Promise

/-!
# A promise is kept across a call

Where a clause holds of some arguments and a result, the promise compiled from
it is kept by them, and what a call site makes of the promise holds the result.
`Guarantee.Keeps` is the meaning of a promise; reading a clause establishes it,
meeting two promises preserves it, and applying a promise uses it.
-/

namespace Deed.Typeck

open Deed.Ast Deed.Library

/-- What one entry of a promise says of a call: the result next to the argument
is where the offset allows. -/
def KeptEntry (args : List Int64) (result : Int64) (entry : Nat × Scaled) :
    Prop :=
  ∀ arg, args[entry.1]? = some arg →
    entry.2.range.Allows (result.toInt - entry.2.factor.toInt * arg.toInt)

/-- The counted argument and what is left of the result are words. -/
def FittingEntry (args : List Int64) (result : Int64) (entry : Nat × Scaled) :
    Prop :=
  ∀ arg, args[entry.1]? = some arg →
    InI64 (arg.toInt * entry.2.factor.toInt) ∧
      InI64 (result.toInt - arg.toInt * entry.2.factor.toInt)

/-- What a promise says of one call. -/
def Guarantee.Keeps (guarantee : Guarantee) (args : List Int64)
    (result : Int64) : Prop :=
  result.toInt ∈ guarantee.range ∧
    ∀ entry ∈ guarantee.offsets, KeptEntry args result entry

/-- A call no entry of the promise is clamped for. -/
def Guarantee.Fits (guarantee : Guarantee) (args : List Int64)
    (result : Int64) : Prop :=
  ∀ entry ∈ guarantee.offsets, FittingEntry args result entry

/-! ## Keeping promises together -/

section Record

variable {args : List Int64} {result : Int64}

theorem recordScaled_kept {offsets : List (Nat × Scaled)} {index : Nat}
    {scaled : Scaled} (old : ∀ entry ∈ offsets, KeptEntry args result entry)
    (new : KeptEntry args result (index, scaled)) :
    ∀ entry ∈ recordScaled offsets index scaled, KeptEntry args result entry := by
  unfold recordScaled
  have inserted (added : Scaled) (kept : KeptEntry args result (index, added)) :
      ∀ entry ∈ Assoc.insert offsets index added,
        KeptEntry args result entry := by
    intro entry member
    rcases Assoc.mem_insert member with rfl | inside
    · exact kept
    · exact old entry inside
  split
  · exact inserted scaled new
  · next existing found =>
      split
      · next sameFactor =>
          refine inserted _ fun arg given => ?_
          have before := old _ (Assoc.mem_of_find? found) arg given
          simp only [sameFactor] at before
          exact before.meet (new arg given)
      · split
        · exact inserted scaled new
        · exact old

/-- The entries of a promise keep their factors when it is joined with another. -/
theorem recordScaled_factor {offsets : List (Nat × Scaled)} {index : Nat}
    {scaled : Scaled} {entry : Nat × Scaled}
    (member : entry ∈ recordScaled offsets index scaled) :
    (entry.1 = index ∧ entry.2.factor = scaled.factor) ∨ entry ∈ offsets := by
  unfold recordScaled at member
  have inserted (added : Scaled) (same : added.factor = scaled.factor)
      (member : entry ∈ Assoc.insert offsets index added) :
      (entry.1 = index ∧ entry.2.factor = scaled.factor) ∨ entry ∈ offsets := by
    rcases Assoc.mem_insert member with rfl | inside
    · exact Or.inl ⟨rfl, same⟩
    · exact Or.inr inside
  split at member
  · exact inserted scaled rfl member
  · next existing _ =>
      split at member
      · exact inserted ⟨scaled.factor, existing.range.meet scaled.range⟩ rfl member
      · split at member
        · exact inserted scaled rfl member
        · exact Or.inr member

theorem Guarantee.Keeps.meet {guarantee other : Guarantee}
    (keeps : guarantee.Keeps args result) (others : other.Keeps args result) :
    (guarantee.meet other).Keeps args result := by
  refine ⟨Range.mem_meet.2 ⟨keeps.1, others.1⟩, ?_⟩
  unfold Guarantee.meet
  refine List.foldlRecOn other.offsets _
    (motive := fun offsets => ∀ entry ∈ offsets, KeptEntry args result entry)
    keeps.2 ?_
  intro offsets kept entry member
  exact recordScaled_kept kept (others.2 entry member)

theorem Guarantee.Fits.meet {guarantee other : Guarantee}
    (fits : guarantee.Fits args result) (others : other.Fits args result) :
    (guarantee.meet other).Fits args result := by
  unfold Guarantee.meet
  refine List.foldlRecOn other.offsets _
    (motive := fun offsets => ∀ entry ∈ offsets,
      FittingEntry args result entry) fits ?_
  intro offsets fitting added member entry recorded
  rcases recordScaled_factor recorded with ⟨sameIndex, sameFactor⟩ | inside
  · have whole := others added member
    unfold FittingEntry at whole ⊢
    rwa [sameFactor, sameIndex]
  · exact fitting entry inside

end Record

/-! ## Applying a promise -/

section Apply

variable {facts : Facts} {env : Env} {v : Valuation} {guarantee : Guarantee}
  {args : List Int64} {result : Int64}

/-- A kept promise lands on the result, wherever the arguments range. -/
theorem mem_landing {ranges : List Range}
    (keeps : guarantee.Keeps args result) (fits : guarantee.Fits args result)
    (inRange : ∀ (index : Nat) (range : Range), ranges[index]? = some range →
      ∃ arg : Int64, args[index]? = some arg ∧ arg.toInt ∈ range) :
    result.toInt ∈ guarantee.landing ranges := by
  unfold Guarantee.landing
  refine List.foldlRecOn guarantee.offsets _
    (motive := fun range => result.toInt ∈ range) keeps.1 ?_
  rintro range inside ⟨index, scaled⟩ member
  simp only
  split
  · exact inside
  · next argRange found =>
      obtain ⟨arg, given, argMem⟩ := inRange index argRange found
      obtain ⟨counted, rest⟩ := fits _ member arg given
      have allowed := keeps.2 _ member arg given
      rw [mul_comm] at allowed
      have whole : result.toInt = arg.toInt * scaled.factor.toInt +
          (result.toInt - arg.toInt * scaled.factor.toInt) := by ring
      refine Range.mem_meet.2 ⟨inside, ?_⟩
      rw [whole]
      exact Range.mem_shift (Range.mem_times argMem counted)
        (allowed.mem rest) (whole ▸ inI64_toInt result)

/-- The expressions of a call evaluate to its arguments, in their ranges. -/
def ArgsExact (facts : Facts) (env : Env) (v : Valuation) (exprs : List Expr)
    (args : List Int64) : Prop :=
  List.Forall₂ (fun expr arg =>
    v.int facts.subject env expr = some arg ∧ RangeExact facts env v expr)
    exprs args

/-- What a call site makes of a kept promise holds the result. -/
theorem mem_applied (counts : env.CountsLengths) (admits : facts.Admits v)
    {exprs : List Expr} (given : ArgsExact facts env v exprs args)
    (keeps : guarantee.Keeps args result) (fits : guarantee.Fits args result) :
    result.toInt ∈ guarantee.applied exprs facts env := by
  refine mem_landing keeps fits fun index range found => ?_
  rw [List.getElem?_map, Option.map_eq_some_iff] at found
  obtain ⟨expr, written, rfl⟩ := found
  obtain ⟨inside, same⟩ := List.getElem?_eq_some_iff.1 written
  have insideArgs : index < args.length := given.length_eq ▸ inside
  obtain ⟨value, exact_⟩ := List.Forall₂.get given inside insideArgs
  refine ⟨args[index], List.getElem?_eq_getElem insideArgs, ?_⟩
  subst same
  exact (reading_sound counts admits _ exact_ _ value).1

end Apply

/-! ## Reading a clause -/

/-- The state a clause is about: the result and the arguments, by the
definitions made up for them. -/
def clauseValuation (args : List Int64) (result : Int64) : Valuation where
  term
    | .name 0 => result
    | .name (index + 1) => args.getD index 0
    | .length _ => 0
  subject := 0
  subjectLength := 0
  length_nonneg := zero_length_nonneg

theorem clauseEnv_counts (subject : String) (names : List String) :
    (clauseEnv subject names).CountsLengths := by
  intro callee inScope
  cases inScope

section Clause

variable (facts : Facts) (env : Env) (args : List Int64) (result : Int64)
  (params : List (Nat × DefId))

/-- What reading one comparison for a promise needs: an exact form, and a bound
that does not start beyond `Int.max`. -/
def BoundExact (op : BinaryOp) (left right : Expr) : Prop :=
  ∀ index scaled,
    scaledBound op (differenceForm left right facts env) resultDef params =
      some (index, scaled) →
    SidesExact env (clauseValuation args result) left right facts ∧
      (scaled.range = .empty → ∀ arg, args[index]? = some arg →
        result.toInt - scaled.factor.toInt * arg.toInt ≤ maxI64)

/-- What reading every comparison of a clause needs. -/
def CollectExact : Expr → Bool → Prop
  | .unary .not operand _, whenTrue => CollectExact operand (!whenTrue)
  | .binary .and lhs rhs _, true =>
      CollectExact lhs true ∧ CollectExact rhs true
  | .binary .or lhs rhs _, false =>
      CollectExact lhs false ∧ CollectExact rhs false
  | .binary op lhs rhs _, whenTrue =>
      ∀ effective, (if whenTrue then some op else negated op) = some effective →
        BoundExact facts env args result params effective lhs rhs ∧
          ∀ swapped, flipped effective = some swapped →
            BoundExact facts env args result params swapped rhs lhs
  | _, _ => True

end Clause

/-- What compiling a clause into a promise needs of the call it is about. -/
def ClauseExact (order : WalkOrder) (condition : Expr) (subject : String)
    (names : List String) (args : List Int64) (result : Int64) : Prop :=
  NarrowingExact (clauseEnv subject names) (clauseValuation args result) order
      condition Facts.new true ∧
    CollectExact (clauseFacts order condition subject names)
      (clauseEnv subject names) args result (clauseParams subject names)
      condition true

/-- A parameter's made up definition is one past its position. -/
theorem clauseParams_def {subject : String} {names : List String} {index : Nat}
    {def_ : DefId} (member : (index, def_) ∈ clauseParams subject names) :
    def_ = index + 1 := by
  unfold clauseParams at member
  rw [List.mem_filterMap] at member
  obtain ⟨position, -, found⟩ := member
  split at found
  · cases found
  · cases found
    rfl

section Reading

variable {facts : Facts} {env : Env} {args : List Int64} {result : Int64}
  {subject : String} {names : List String} {op : BinaryOp}
  {left right : Expr} {x y : Int64}

/-- Taking the one result out of a form leaves what the rest adds up to. -/
theorem sum_without_result {v : Valuation} {form : Linear}
    (distinct : Assoc.Distinct form.terms)
    (once : Assoc.find? form.terms (.name resultDef) = some 1) :
    Linear.sum v form.terms =
      (v.term (.name resultDef)).toInt +
        Linear.sum v (Assoc.erase form.terms (.name resultDef)) := by
  have one : (1 : Int64).toInt = 1 := rfl
  unfold Linear.sum
  rw [Assoc.sumOf_erase _ distinct, once, Option.map_some, Option.getD_some, one]
  ring

theorem scaledBound_kept (counts : env.CountsLengths)
    (admits : facts.Admits (clauseValuation args result))
    (leftValue : (clauseValuation args result).int facts.subject env left = some x)
    (rightValue : (clauseValuation args result).int facts.subject env right = some y)
    (compared : compareInts op x.toInt y.toInt = some true)
    (exact_ : BoundExact facts env args result (clauseParams subject names) op
      left right)
    {index : Nat} {scaled : Scaled}
    (found : scaledBound op (differenceForm left right facts env) resultDef
      (clauseParams subject names) = some (index, scaled)) :
    KeptEntry args result (index, scaled) := by
  intro arg given
  obtain ⟨⟨leftExact, rightExact, noClamp⟩, nonempty⟩ := exact_ index scaled found
  have reads := differenceForm_reads counts admits leftExact rightExact noClamp
    leftValue rightValue
  have distinct : Assoc.Distinct (differenceForm left right facts env).terms :=
    Linear.distinct_add (distinct_linear left)
  unfold scaledBound at found
  split at found
  · cases found
  · next once =>
      rw [not_not] at once
      split at found
      · next def_ count remaining =>
          simp only [Option.bind_eq_bind, Option.bind_eq_some_iff] at found
          obtain ⟨factor, counted, param, declared, range, bounded, same⟩ := found
          cases same
          have factorIs := checked_eq_some.1 counted
          have isParam : def_ = param.1 + 1 := by
            have asked := List.find?_some declared
            have known := clauseParams_def (List.mem_of_find?_eq_some declared)
            simp only [decide_eq_true_eq] at asked
            rw [← asked, known]
          have argIs : (clauseValuation args result).term (.name def_) = arg := by
            rw [isParam]
            change args.getD param.1 0 = arg
            rw [List.getD_eq_getElem?_getD, given, Option.getD_some]
          have whole : Linear.sum (clauseValuation args result)
              (differenceForm left right facts env).terms =
                result.toInt - factor.toInt * arg.toInt := by
            rw [sum_without_result distinct once, remaining, Linear.sum,
              Assoc.sumOf, List.map_singleton, List.sum_singleton, argIs,
              factorIs]
            change result.toInt + _ = _
            ring
          refine boundFrom_allows bounded reads (fun empty => nonempty empty arg given) ?_
          rw [Linear.rest, whole, add_sub_cancel, compareInts_sub]
          exact compared
      · cases found

theorem scaledFrom_kept (counts : env.CountsLengths)
    (admits : facts.Admits (clauseValuation args result))
    (leftValue : (clauseValuation args result).int facts.subject env left = some x)
    (rightValue : (clauseValuation args result).int facts.subject env right = some y)
    (compared : compareInts op x.toInt y.toInt = some true)
    (exact_ : BoundExact facts env args result (clauseParams subject names) op
      left right)
    {offsets : List (Nat × Scaled)}
    (kept : ∀ entry ∈ offsets, KeptEntry args result entry) :
    ∀ entry ∈ scaledFrom op (differenceForm left right facts env) resultDef
      (clauseParams subject names) offsets, KeptEntry args result entry := by
  unfold scaledFrom
  split
  · next index scaled found =>
      exact recordScaled_kept kept (scaledBound_kept counts admits leftValue
        rightValue compared exact_ found)
  · exact kept

theorem scaledFromBoth_kept (counts : env.CountsLengths)
    (admits : facts.Admits (clauseValuation args result))
    (leftValue : (clauseValuation args result).int facts.subject env left = some x)
    (rightValue : (clauseValuation args result).int facts.subject env right = some y)
    (compared : compareInts op x.toInt y.toInt = some true)
    (exact_ : BoundExact facts env args result (clauseParams subject names) op
      left right)
    (swappedExact : ∀ swapped, flipped op = some swapped →
      BoundExact facts env args result (clauseParams subject names) swapped
        right left)
    {offsets : List (Nat × Scaled)}
    (kept : ∀ entry ∈ offsets, KeptEntry args result entry) :
    ∀ entry ∈ scaledFromBoth facts env resultDef (clauseParams subject names) op
      left right offsets, KeptEntry args result entry := by
  have once := scaledFrom_kept counts admits leftValue rightValue compared exact_
    kept
  unfold scaledFromBoth
  simp only
  split
  · next swapped found =>
      exact scaledFrom_kept counts admits rightValue leftValue
        ((compareInts_flipped _ _ found).trans compared)
        (swappedExact swapped found) once
  · exact once

/-- An operator that is no comparison bounds nothing. -/
theorem scaledFromBoth_or (offsets : List (Nat × Scaled)) :
    scaledFromBoth facts env resultDef (clauseParams subject names) .or
      left right offsets = offsets := by
  have noBound (form : Linear) :
      scaledBound .or form resultDef (clauseParams subject names) = none := by
    unfold scaledBound
    split
    · rfl
    · split
      · simp [boundFrom_or]
      · rfl
  unfold scaledFromBoth scaledFrom
  rw [noBound]
  rfl

/-- Every comparison of a clause that holds adds only what the call keeps. -/
theorem collectScaled_kept (counts : env.CountsLengths)
    (admits : facts.Admits (clauseValuation args result))
    (condition : Expr) (offsets : List (Nat × Scaled)) (whenTrue : Bool)
    (exact_ : CollectExact facts env args result (clauseParams subject names)
      condition whenTrue)
    (value : (clauseValuation args result).bool facts.subject env condition =
      some whenTrue)
    (kept : ∀ entry ∈ offsets, KeptEntry args result entry) :
    ∀ entry ∈ collectScaled facts env resultDef (clauseParams subject names)
      condition offsets whenTrue, KeptEntry args result entry := by
  induction condition, offsets, whenTrue using
    collectScaled.induct facts env resultDef (clauseParams subject names) with
  | case1 operand span offsets whenTrue ih =>
      obtain ⟨inner, innerValue, same⟩ := Option.map_eq_some_iff.1 value
      have flip : inner = !whenTrue := by
        rw [← same, Bool.not_not]
      subst flip
      rw [collectScaled]
      rw [CollectExact] at exact_
      exact ih exact_ innerValue kept
  | case2 lhs rhs span offsets first second =>
      obtain ⟨left, leftValue, rest⟩ := Option.bind_eq_some_iff.1 value
      rw [CollectExact] at exact_
      cases left with
      | false => cases rest
      | true =>
          rw [collectScaled]
          exact second exact_.2 rest (first exact_.1 leftValue kept)
  | case3 lhs rhs span offsets first second =>
      obtain ⟨left, leftValue, rest⟩ := Option.bind_eq_some_iff.1 value
      rw [CollectExact] at exact_
      cases left with
      | true => cases rest
      | false =>
          rw [collectScaled]
          exact second exact_.2 rest (first exact_.1 leftValue kept)
  | case4 op lhs rhs span offsets whenTrue notAnd notOr effective asked =>
      rw [collectScaled]
      · rw [CollectExact] at exact_
        · obtain ⟨bound, swapped⟩ := exact_ effective asked
          rw [asked]
          by_cases isOr : op = .or
          · subst isOr
            cases whenTrue with
            | true =>
                cases asked
                simp only
                rw [scaledFromBoth_or]
                exact kept
            | false => exact (notOr rfl rfl).elim
          · have notAnd' : op ≠ .and := by
              rintro rfl
              cases whenTrue with
              | true => exact notAnd rfl rfl
              | false => cases asked
            obtain ⟨x, leftValue, y, rightValue, compared⟩ :=
              (clauseValuation args result).comparison_values notAnd' isOr value
            refine scaledFromBoth_kept counts admits leftValue rightValue ?_ bound
              swapped kept
            cases whenTrue with
            | true =>
                cases asked
                exact compared
            | false => exact compareInts_negated asked compared
        · exact notAnd
        · exact notOr
      · exact notAnd
      · exact notOr
  | case5 op lhs rhs span offsets whenTrue notAnd notOr none_ =>
      rw [collectScaled]
      · rw [none_]
        exact kept
      · exact notAnd
      · exact notOr
  | case6 other offsets whenTrue notNot notAnd notOr notComparison =>
      rw [collectScaled]
      · exact kept
      · exact notNot
      · exact notComparison
      · exact notAnd
      · exact notOr

/-- The promise compiled from a clause is kept wherever the clause holds. -/
theorem promisedBy_keeps (order : WalkOrder) (condition : Expr)
    (exact_ : ClauseExact order condition subject names args result)
    (value : (clauseValuation args result).bool none (clauseEnv subject names)
      condition = some true) :
    (promisedBy order condition subject names).Keeps args result := by
  obtain ⟨narrows, collects⟩ := exact_
  have counts := clauseEnv_counts subject names
  have admits := narrowing_admits order counts condition Facts.new true
    (Facts.new_admits (clauseValuation args result)) narrows value
  refine ⟨admits.term (.name resultDef), ?_⟩
  refine collectScaled_kept counts admits condition [] true collects ?_ nofun
  rw [applyNarrowing_subject]
  exact value

end Reading

/-- `result - n == n + 5`. -/
def twicePlusFive : Expr :=
  .binary .eq
    (.binary .sub (nameExpr "result") (nameExpr "n") (.at 0))
    (.binary .add (nameExpr "n") (.int 5 (.at 0)) (.at 0)) (.at 0)

/-- `-2^62 - 2`, whose double is four below `Int.min`. -/
def farArgument : Int64 := -4611686018427387906

/-- `-2^63 + 1`, which is the double of `farArgument` and five. -/
def nearBottom : Int64 := -9223372036854775807

section Edge

variable (facts : Facts) (noSubject : facts.subject = none)

include noSubject in
theorem linear_clauseName (name : String) (def_ : DefId)
    (known : (clauseEnv "result" ["n"]).defOf (nameExpr name) = some def_) :
    linear facts (clauseEnv "result" ["n"]) (nameExpr name) =
      .name (.name def_) := by
  refine linear_term noSubject rfl ?_
  rw [nameExpr] at known ⊢
  rw [termOf, known]
  rfl

include noSubject in
theorem differenceForm_twicePlusFive :
    differenceForm
        (.binary .sub (nameExpr "result") (nameExpr "n") (.at 0))
        (.binary .add (nameExpr "n") (.int 5 (.at 0)) (.at 0))
        facts (clauseEnv "result" ["n"]) =
      ⟨[(.name 0, 1), (.name 1, -2)], .exactly (-5)⟩ := by
  rw [differenceForm, linear_sub, linear_add, linear_int,
    linear_clauseName facts noSubject "result" 0 (by decide),
    linear_clauseName facts noSubject "n" 1 (by decide)]
  decide

include noSubject in
theorem differenceForm_twicePlusFive_swapped :
    differenceForm
        (.binary .add (nameExpr "n") (.int 5 (.at 0)) (.at 0))
        (.binary .sub (nameExpr "result") (nameExpr "n") (.at 0))
        facts (clauseEnv "result" ["n"]) =
      ⟨[(.name 0, -1), (.name 1, 2)], .exactly 5⟩ := by
  rw [differenceForm, linear_sub, linear_add, linear_int,
    linear_clauseName facts noSubject "result" 0 (by decide),
    linear_clauseName facts noSubject "n" 1 (by decide)]
  decide

theorem narrowScaled_twicePlusFive :
    narrowScaled .asKept (clauseEnv "result" ["n"]) .eq
      (.binary .sub (nameExpr "result") (nameExpr "n") (.at 0))
      (.binary .add (nameExpr "n") (.int 5 (.at 0)) (.at 0)) Facts.new =
        Facts.new := by
  unfold narrowScaled
  rw [differenceForm_twicePlusFive _ rfl]
  rfl

theorem clauseFacts_twicePlusFive :
    clauseFacts .asKept twicePlusFive "result" ["n"] = Facts.new := by
  have related : narrowRelation .asKept (clauseEnv "result" ["n"]) .eq
      (.binary .sub (nameExpr "result") (nameExpr "n") (.at 0))
      (.binary .add (nameExpr "n") (.int 5 (.at 0)) (.at 0)) Facts.new =
        Facts.new := by
    unfold narrowRelation
    rw [differenceForm_twicePlusFive _ rfl]
    decide
  rw [clauseFacts, twicePlusFive, applyNarrowing_binary (by decide) (by decide)]
  change narrowRelation .asKept _ .eq _ _
    (narrowScaled .asKept _ .eq _ _ Facts.new) = _
  rw [narrowScaled_twicePlusFive, related]

theorem promisedBy_twicePlusFive :
    promisedBy .asKept twicePlusFive "result" ["n"] =
      ⟨.any, [(0, ⟨2, .exactly 5⟩)]⟩ := by
  have collected : collectScaled Facts.new (clauseEnv "result" ["n"]) resultDef
      (clauseParams "result" ["n"]) twicePlusFive [] true =
        [(0, ⟨2, .exactly 5⟩)] := by
    change scaledFromBoth Facts.new _ _ _ .eq _ _ _ = _
    unfold scaledFromBoth
    rw [differenceForm_twicePlusFive _ rfl]
    change scaledFrom .eq (differenceForm _ _ _ _) _ _ _ = _
    rw [differenceForm_twicePlusFive_swapped _ rfl]
    decide
  unfold promisedBy
  simp only [clauseFacts_twicePlusFive, collected]
  rfl

end Edge

/-- Nothing is clamped in either side at `n = 1` and `result = 7`. -/
theorem sidesExact_twicePlusFive :
    SidesExact (clauseEnv "result" ["n"]) (clauseValuation [1] 7)
      (.binary .sub (nameExpr "result") (nameExpr "n") (.at 0))
      (.binary .add (nameExpr "n") (.int 5 (.at 0)) (.at 0)) Facts.new := by
  have formResult := linear_clauseName Facts.new rfl "result" 0
    (by decide)
  have formN := linear_clauseName Facts.new rfl "n" 1 (by decide)
  have left : LinearExact Facts.new (clauseEnv "result" ["n"])
      (clauseValuation [1] 7)
      (.binary .sub (nameExpr "result") (nameExpr "n") (.at 0)) := by
    refine ⟨trivial, trivial, ?_⟩
    rintro x ⟨⟩ y ⟨⟩
    rw [formResult, formN]
    exact ⟨by decide,
      Linear.addExact_of_small (by decide) (by decide) (by decide)⟩
  have right : LinearExact Facts.new (clauseEnv "result" ["n"])
      (clauseValuation [1] 7)
      (.binary .add (nameExpr "n") (.int 5 (.at 0)) (.at 0)) := by
    refine ⟨trivial, trivial, ?_⟩
    rintro x ⟨⟩ y ⟨⟩
    rw [formN, linear_int]
    exact Linear.addExact_of_small (by decide) (by decide) (by decide)
  refine ⟨⟨trivial, trivial, fun _ => by decide, fun _ => ⟨left, ?_⟩⟩,
    ⟨trivial, trivial, nofun, fun recorded => absurd ?_ recorded⟩,
    left, right, ?_⟩
  · rw [linear_sub, formResult, formN]
    refine ⟨?_, fun apart => absurd apart (by decide)⟩
    rintro a b ⟨⟩
    decide
  · rw [related, linear_add, formN, linear_int]
    decide
  · rintro x ⟨⟩ y ⟨⟩
    rw [linear_sub, linear_add, formResult, formN, linear_int]
    exact ⟨by decide,
      Linear.addExact_of_small (by decide) (by decide) (by decide)⟩

end Deed.Typeck
