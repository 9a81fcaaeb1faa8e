import Deed.Typeck.Valuation

/-!
# Linear forms under a valuation

A linear form reads a value when what its counted terms leave over lies in its
offset.  That remainder is a number the program never computes, so each
operation keeps the reading only while the numbers it clamps, the counts and
the remainders, are words; `AddExact`, `ScaleExact` and `NegateExact` say so.
-/

namespace Deed.Typeck

open Deed.Library

namespace Linear

variable (v : Valuation)

/-- What the counted terms of a form add up to. -/
def sum (terms : List (Term × Int64)) : Int :=
  Assoc.sumOf (fun entry => entry.2.toInt * (v.term entry.1).toInt) terms

/-- What is left of `value` for the offset to be. -/
def rest (form : Linear) (value : Int) : Int := value - sum v form.terms

/-- The form is one way of writing `value`. -/
def Reads (form : Linear) (value : Int) : Prop :=
  form.rest v value ∈ form.offset

def count (terms : List (Term × Int64)) (term : Term) : Int :=
  ((Assoc.find? terms term).getD 0).toInt

theorem count_constant (offset : Range) (term : Term) :
    count (constant offset).terms term = 0 := rfl

/-- Nothing is clamped when two forms are added. -/
def AddExact (left right : Linear) (x y : Int) : Prop :=
  InI64 (left.rest v x + right.rest v y) ∧
    ∀ term, InI64 (count left.terms term + count right.terms term)

/-- The remainder of a form that can be scaled is still a word after it. -/
def ScaleExact (form : Linear) (factor : Int64) (x : Int) : Prop :=
  (form.scale factor).isSome → InI64 (form.rest v x * factor.toInt)

/-- As `ScaleExact`, for the negation, which falls back on the whole value
being a word when a count has no negation. -/
def NegateExact (form : Linear) (x : Int) : Prop :=
  if (form.scale (-1)).isSome then InI64 (-form.rest v x) else InI64 (-x)

instance (form : Linear) (x : Int) : Decidable (form.NegateExact v x) :=
  inferInstanceAs (Decidable
    (if (form.scale (-1)).isSome then InI64 (-form.rest v x) else InI64 (-x)))

/-- Nothing is clamped when one form is taken from another. -/
def SubtractExact (left right : Linear) (x y : Int) : Prop :=
  right.NegateExact v y ∧ left.AddExact v right.negate x (-y)

/-! ## Counted terms -/

section Terms

variable {v} {terms others : List (Term × Int64)}

theorem addTerm_eq (terms : List (Term × Int64)) (entry : Term × Int64) :
    addTerm terms entry =
      if saturate (count terms entry.1 + entry.2.toInt) = 0 then
        Assoc.erase terms entry.1
      else
        Assoc.insert terms entry.1
          (saturate (count terms entry.1 + entry.2.toInt)) :=
  rfl

theorem sum_addTerm (distinct : Assoc.Distinct terms) (entry : Term × Int64)
    (fits : InI64 (count terms entry.1 + entry.2.toInt)) :
    sum v (addTerm terms entry) =
      sum v terms + entry.2.toInt * (v.term entry.1).toInt := by
  have exact_ : (saturate (count terms entry.1 + entry.2.toInt)).toInt =
      count terms entry.1 + entry.2.toInt := by
    rw [toInt_saturate, clamp_of_mem fits.1 fits.2]
  have held : ((Assoc.find? terms entry.1).map fun old =>
      old.toInt * (v.term entry.1).toInt).getD 0 =
        count terms entry.1 * (v.term entry.1).toInt := by
    unfold count
    cases Assoc.find? terms entry.1 <;> simp
  rw [addTerm_eq]
  split
  · next zero =>
      rw [zero] at exact_
      change (0 : Int) = _ at exact_
      rw [sum, Assoc.sumOf_erase _ distinct, held, ← sum]
      have cancels : entry.2.toInt = -count terms entry.1 := by omega
      rw [cancels]
      ring
  · rw [sum, Assoc.sumOf_insert _ distinct, held, ← sum]
    change (saturate _).toInt * (v.term entry.1).toInt + _ = _
    rw [exact_]
    ring

theorem distinct_addTerm (distinct : Assoc.Distinct terms)
    (entry : Term × Int64) : Assoc.Distinct (addTerm terms entry) := by
  rw [addTerm_eq]
  split
  · exact distinct.erase _
  · exact distinct.insert _ _

theorem count_addTerm_ne {entry : Term × Int64} {term : Term}
    (different : entry.1 ≠ term) :
    count (addTerm terms entry) term = count terms term := by
  rw [addTerm_eq]
  unfold count
  split
  · rw [Assoc.find?_erase, if_neg different]
  · rw [Assoc.find?_insert, if_neg different]

theorem distinct_foldl_addTerm (distinct : Assoc.Distinct terms) :
    Assoc.Distinct (others.foldl addTerm terms) := by
  induction others generalizing terms with
  | nil => exact distinct
  | cons head rest ih => exact ih (distinct_addTerm distinct head)

theorem sum_foldl_addTerm (distinct : Assoc.Distinct terms)
    (othersDistinct : Assoc.Distinct others)
    (fits : ∀ term, InI64 (count terms term + count others term)) :
    sum v (others.foldl addTerm terms) = sum v terms + sum v others := by
  induction others generalizing terms with
  | nil => exact (add_zero _).symm
  | cons head rest ih =>
      obtain ⟨fresh, tails⟩ := List.nodup_cons.1 othersDistinct
      have headFits : InI64 (count terms head.1 + head.2.toInt) := by
        have whole := fits head.1
        rwa [count, count, Assoc.find?, if_pos rfl] at whole
      have restFits : ∀ term,
          InI64 (count (addTerm terms head) term + count rest term) := by
        intro term
        by_cases same : head.1 = term
        · subst same
          have zero : count rest head.1 = 0 := by
            rw [count, Assoc.find?_eq_none_iff.2 fresh]
            rfl
          rw [zero, add_zero]
          exact inI64_toInt _
        · rw [count_addTerm_ne same]
          have whole := fits term
          rwa [count, count, Assoc.find?, if_neg same] at whole
      rw [List.foldl_cons, ih (distinct_addTerm distinct head) tails restFits,
        sum_addTerm distinct head headFits, add_assoc]
      rfl

theorem sum_scaleTerms {factor : Int64} {scaled : List (Term × Int64)}
    (found : scaleTerms factor terms = some scaled) :
    sum v scaled = sum v terms * factor.toInt := by
  induction terms generalizing scaled with
  | nil =>
      cases found
      exact (zero_mul _).symm
  | cons head rest ih =>
      simp only [scaleTerms, Option.bind_eq_bind, Option.bind_eq_some_iff] at found
      obtain ⟨count, counted, others, scaledRest, found⟩ := found
      have headValue : count.toInt = head.2.toInt * factor.toInt :=
        checked_eq_some.1 counted
      have restValue := ih scaledRest
      have whole : sum v (head :: rest) =
          head.2.toInt * (v.term head.1).toInt + sum v rest := rfl
      split at found
      · cases found
        change count.toInt * (v.term head.1).toInt + sum v others = _
        rw [restValue, headValue, whole]
        ring
      · next zero =>
          cases found
          rw [not_not] at zero
          rw [zero] at headValue
          change (0 : Int) = _ at headValue
          rw [restValue, whole, add_mul, mul_right_comm, ← headValue]
          ring

theorem keys_scaleTerms {factor : Int64} {scaled : List (Term × Int64)}
    (found : scaleTerms factor terms = some scaled) :
    (scaled.map Prod.fst).Sublist (terms.map Prod.fst) := by
  induction terms generalizing scaled with
  | nil =>
      cases found
      exact List.Sublist.refl _
  | cons head rest ih =>
      simp only [scaleTerms, Option.bind_eq_bind, Option.bind_eq_some_iff] at found
      obtain ⟨count, -, others, scaledRest, found⟩ := found
      split at found
      · cases found
        exact (ih scaledRest).cons_cons _
      · cases found
        exact (ih scaledRest).cons _

end Terms

/-! ## Operations -/

section Operations

variable {v} {form left right : Linear} {x y : Int}

theorem reads_constant {offset : Range} (member : x ∈ offset) :
    (constant offset).Reads v x := by
  change x - 0 ∈ offset
  rwa [sub_zero]

theorem reads_name (term : Term) : (name term).Reads v (v.term term).toInt := by
  have whole : sum v [(term, 1)] = (v.term term).toInt := by
    change (1 : Int64).toInt * _ + 0 = _
    rw [add_zero]
    exact one_mul _
  change _ - sum v [(term, 1)] ∈ Range.exactly 0
  rw [whole, sub_self]
  exact Range.mem_exactly.2 rfl

theorem distinct_name (term : Term) : Assoc.Distinct (name term).terms :=
  List.nodup_singleton _

theorem reads_add (leftDistinct : Assoc.Distinct left.terms)
    (rightDistinct : Assoc.Distinct right.terms)
    (leftReads : left.Reads v x) (rightReads : right.Reads v y)
    (fits : left.AddExact v right x y) : (left.add right).Reads v (x + y) := by
  have whole : (left.add right).rest v (x + y) =
      left.rest v x + right.rest v y := by
    unfold rest add
    rw [sum_foldl_addTerm leftDistinct rightDistinct fits.2]
    ring
  rw [Reads, whole]
  exact Range.mem_add leftReads rightReads fits.1

theorem distinct_add (distinct : Assoc.Distinct left.terms) :
    Assoc.Distinct (left.add right).terms :=
  distinct_foldl_addTerm distinct

theorem scale_eq_some {factor : Int64} {scaled : Linear}
    (found : form.scale factor = some scaled) :
    scaleTerms factor form.terms = some scaled.terms ∧
      scaled.offset = form.offset.mul (.exactly factor) := by
  simp only [scale, Option.bind_eq_bind, Option.bind_eq_some_iff] at found
  obtain ⟨terms, counted, same⟩ := found
  cases same
  exact ⟨counted, rfl⟩

/-- Counts that are nowhere near an edge add up to words. -/
theorem addExact_of_small
    (leftSmall : ∀ entry ∈ left.terms, entry.2.toInt.natAbs ≤ 2 ^ 32)
    (rightSmall : ∀ entry ∈ right.terms, entry.2.toInt.natAbs ≤ 2 ^ 32)
    (rests : InI64 (left.rest v x + right.rest v y)) :
    left.AddExact v right x y := by
  have small {terms : List (Term × Int64)}
      (bounded : ∀ entry ∈ terms, entry.2.toInt.natAbs ≤ 2 ^ 32) (term : Term) :
      (count terms term).natAbs ≤ 2 ^ 32 := by
    unfold count
    cases found : Assoc.find? terms term with
    | none => decide
    | some held => exact bounded _ (Assoc.mem_of_find? found)
  refine ⟨rests, fun term => ?_⟩
  have one := small leftSmall term
  have other := small rightSmall term
  rw [inI64_iff]
  omega

theorem reads_scale {factor : Int64} {scaled : Linear}
    (reads : form.Reads v x) (found : form.scale factor = some scaled)
    (fits : InI64 (form.rest v x * factor.toInt)) :
    scaled.Reads v (x * factor.toInt) := by
  obtain ⟨counted, offset⟩ := scale_eq_some found
  have whole : scaled.rest v (x * factor.toInt) =
      form.rest v x * factor.toInt := by
    unfold rest
    rw [sum_scaleTerms counted]
    ring
  rw [Reads, whole, offset]
  exact Range.mem_mul reads (Range.mem_exactly.2 rfl) fits

theorem distinct_scale {factor : Int64} {scaled : Linear}
    (distinct : Assoc.Distinct form.terms)
    (found : form.scale factor = some scaled) :
    Assoc.Distinct scaled.terms :=
  List.Nodup.sublist (keys_scaleTerms (scale_eq_some found).1) distinct

theorem reads_negate (reads : form.Reads v x) (fits : form.NegateExact v x) :
    form.negate.Reads v (-x) := by
  have minusOne : (-1 : Int64).toInt = -1 := rfl
  unfold negate
  unfold NegateExact at fits
  cases found : form.scale (-1) with
  | none =>
      rw [found] at fits
      exact reads_constant fits
  | some scaled =>
      rw [found] at fits
      have scaledReads := reads_scale reads found (by
        rw [minusOne, mul_neg, mul_one]
        exact fits)
      rwa [minusOne, mul_neg, mul_one] at scaledReads

theorem distinct_negate (distinct : Assoc.Distinct form.terms) :
    Assoc.Distinct form.negate.terms := by
  unfold negate
  cases found : form.scale (-1) with
  | none => exact List.nodup_nil
  | some scaled => exact distinct_scale distinct found

theorem reads_subtract (leftDistinct : Assoc.Distinct left.terms)
    (rightDistinct : Assoc.Distinct right.terms)
    (leftReads : left.Reads v x) (rightReads : right.Reads v y)
    (fits : left.SubtractExact v right x y) :
    (left.add right.negate).Reads v (x - y) := by
  rw [sub_eq_add_neg]
  exact reads_add leftDistinct (distinct_negate rightDistinct) leftReads
    (reads_negate rightReads fits.1) fits.2

/-- A form that is one number is the value it reads. -/
theorem eq_constantValue {value : Int64} (reads : form.Reads v x)
    (found : form.constantValue = some value) : x = value.toInt := by
  obtain ⟨terms, offset⟩ := form
  unfold constantValue at found
  split at found
  · cases found
  · next noTerms =>
      cases not_not.1 noTerms
      cases offset with
      | empty => cases found
      | bounded low high =>
          change (if low = high then some low else none) = some value at found
          split at found
          · next same =>
              cases found
              have both : value.toInt ≤ x - 0 ∧ x - 0 ≤ high.toInt := reads
              rw [← same] at both
              omega
          · cases found

end Operations

/-! ## Pairs, totals and single names -/

section Shapes

variable {v} {form : Linear} {a b : Term}

theorem foldl_pairStep_none (terms : List (Term × Int64)) :
    terms.foldl pairStep none = none := by
  induction terms with
  | nil => rfl
  | cons head rest ih => exact ih

/-- A search that succeeds used its first entry on a side still free. -/
theorem foldl_pairStep_cons {entry : Term × Int64} {rest : List (Term × Int64)}
    {positive negative : Option Term} {answer : Option Term × Option Term}
    (found : (entry :: rest).foldl pairStep (some (positive, negative)) =
      some answer) :
    (entry.2 = 1 ∧ positive = none ∧
      rest.foldl pairStep (some (some entry.1, negative)) = some answer) ∨
    (entry.2 = -1 ∧ negative = none ∧
      rest.foldl pairStep (some (positive, some entry.1)) = some answer) := by
  have step : pairStep (some (positive, negative)) entry =
      if entry.2 = 1 ∧ positive = none then some (some entry.1, negative)
      else if entry.2 = -1 ∧ negative = none then some (positive, some entry.1)
      else none := rfl
  rw [List.foldl_cons, step] at found
  split at found
  · next once => exact Or.inl ⟨once.1, once.2, found⟩
  · split at found
    · next minus => exact Or.inr ⟨minus.1, minus.2, found⟩
    · rw [foldl_pairStep_none] at found
      cases found

/-- A difference of a pair is written in one of two orders. -/
theorem pair_terms (found : form.pair = some (a, b)) :
    form.terms = [(a, 1), (b, -1)] ∨ form.terms = [(b, -1), (a, 1)] := by
  have folded : form.terms.foldl pairStep (some (none, none)) =
      some (some a, some b) := by
    unfold pair at found
    split at found
    · next positive negative folded =>
        cases found
        exact folded
    · cases found
  obtain ⟨terms, offset⟩ := form
  change terms.foldl pairStep (some (none, none)) = _ at folded
  change terms = _ ∨ terms = _
  rcases terms with _ | ⟨⟨first, one⟩, _ | ⟨⟨second, other⟩, _ | ⟨third, rest⟩⟩⟩
  · cases folded
  · rcases foldl_pairStep_cons folded with ⟨-, -, done⟩ | ⟨-, -, done⟩ <;>
      cases done
  · rcases foldl_pairStep_cons folded with ⟨rfl, -, next⟩ | ⟨rfl, -, next⟩
    · rcases foldl_pairStep_cons next with ⟨-, full, -⟩ | ⟨rfl, -, done⟩
      · cases full
      · cases done
        exact Or.inl rfl
    · rcases foldl_pairStep_cons next with ⟨rfl, -, done⟩ | ⟨-, full, -⟩
      · cases done
        exact Or.inr rfl
      · cases full
  · -- a third entry finds both sides taken
    rcases foldl_pairStep_cons folded with ⟨-, -, next⟩ | ⟨-, -, next⟩ <;>
      rcases foldl_pairStep_cons next with ⟨-, full, last⟩ | ⟨-, full, last⟩ <;>
        first
        | exact absurd full (Option.some_ne_none _)
        | rcases foldl_pairStep_cons last with ⟨-, full, -⟩ | ⟨-, full, -⟩ <;>
            exact absurd full (Option.some_ne_none _)

theorem sum_pair (found : form.pair = some (a, b)) :
    sum v form.terms = v.gap a b := by
  unfold Valuation.gap
  have one : (1 : Int64).toInt = 1 := rfl
  have minusOne : (-1 : Int64).toInt = -1 := rfl
  rcases pair_terms found with terms | terms
  · rw [terms]
    simp only [sum, Assoc.sumOf, List.map_cons, List.map_nil, List.sum_cons,
      List.sum_nil, one, minusOne]
    ring
  · rw [terms]
    simp only [sum, Assoc.sumOf, List.map_cons, List.map_nil, List.sum_cons,
      List.sum_nil, one, minusOne]
    ring

theorem total_terms (found : form.total = some (a, b)) :
    form.terms = [(a, 1), (b, 1)] := by
  obtain ⟨terms, offset⟩ := form
  simp only [total] at found ⊢
  rcases terms with _ | ⟨⟨first, one⟩, _ | ⟨⟨second, other⟩, _ | ⟨third, rest⟩⟩⟩
  · cases found
  · by_cases counted : one = 1 <;> simp [counted] at found
  · by_cases counted : one = 1 <;> by_cases also : other = 1 <;>
      simp_all
  · split at found
    · simp at found
    · cases found

theorem sum_total (found : form.total = some (a, b)) :
    sum v form.terms = v.total a b := by
  unfold Valuation.total
  have one : (1 : Int64).toInt = 1 := rfl
  rw [total_terms found]
  simp only [sum, Assoc.sumOf, List.map_cons, List.map_nil, List.sum_cons,
    List.sum_nil, one]
  ring

theorem sum_scaledName {count : Int64} (found : form.scaledName = some (a, count)) :
    sum v form.terms = count.toInt * (v.term a).toInt := by
  unfold scaledName at found
  split at found
  · next entry terms =>
      cases found
      rw [terms]
      exact add_zero _
  · cases found

end Shapes

end Linear

end Deed.Typeck
