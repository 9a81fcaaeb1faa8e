import Deed.Typeck.Soundness

/-!
# Propagating what is known

`settle` works out what the ranges and the differences say about each other.
It rules no state out as long as the names whose differences are recorded, and
the names reached from them through other recorded differences, are never
further apart than `Int.max`: `Close` is that condition, and it is kept because
propagation only ever relates names that were already linked.
-/

namespace Deed.Typeck

open Deed.Ast Deed.Library

theorem Valuation.neg_gap (v : Valuation) (a b : Term) :
    -v.gap a b = v.gap b a := by
  unfold gap
  ring

/-- A difference at most `Int.max` both ways round is a word both ways round. -/
theorem Valuation.gap_inI64 (v : Valuation) {a b : Term}
    (near : v.gap a b ≤ maxI64) (near' : v.gap b a ≤ maxI64) :
    InI64 (v.gap a b) ∧ InI64 (-v.gap a b) := by
  rw [← v.neg_gap a b] at near'
  unfold maxI64 at near near'
  constructor <;> rw [inI64_iff] <;> constructor <;> omega

namespace Facts

def Recorded (facts : Facts) (a b : Term) : Prop :=
  facts.differences.find? (a, b) ≠ none

/-- Two terms related by a chain of recorded differences. -/
def Linked (facts : Facts) : Term → Term → Prop :=
  Relation.EqvGen facts.Recorded

/-- Linked terms are no further apart than a word is from nought. -/
def Close (facts : Facts) (v : Valuation) : Prop :=
  ∀ a b, facts.Linked a b → v.gap a b ≤ maxI64

/-- What narrowing a term needs: when it says something new it settles. -/
def NarrowExact (facts : Facts) (v : Valuation) (term : Term) (range : Range) :
    Prop :=
  (facts.get term).meet range ≠ facts.get term → facts.Close v

/-- What narrowing a difference needs: when it says something new the pair is
recorded, and it settles. -/
def NarrowDifferenceExact (facts : Facts) (v : Valuation) (a b : Term)
    (range : Range) : Prop :=
  (facts.tightenDifference a b range).2 = true →
    (facts.tightenDifference a b range).1.Close v

/-! ## One table at a time -/

section Tables

variable {facts : Facts} {v : Valuation} {a b term : Term} {range : Range}

theorem get_tighten (other : Term) :
    (facts.tighten term range).1.get other =
      if term = other then (facts.get term).meet range else facts.get other := by
  unfold tighten
  simp only
  split
  · next same =>
      split
      · next asked =>
          subst asked
          exact same.symm
      · rfl
  · unfold get
    rw [Table.find?_insert]
    split <;> rfl

theorem tighten_differences :
    (facts.tighten term range).1.differences = facts.differences := by
  unfold tighten
  simp only
  split <;> rfl

theorem tighten_totals :
    (facts.tighten term range).1.totals = facts.totals := by
  unfold tighten
  simp only
  split <;> rfl

theorem tighten_subject :
    (facts.tighten term range).1.subject = facts.subject := by
  unfold tighten
  simp only
  split <;> rfl

/-- A range that holds the value of a term may be recorded for it. -/
theorem Admits.tighten (admits : facts.Admits v)
    (member : (v.term term).toInt ∈ range) :
    (facts.tighten term range).1.Admits v where
  term other := by
    rw [get_tighten]
    split
    · next same =>
        subst same
        exact Range.mem_meet.2 ⟨admits.term term, member⟩
    · exact admits.term other
  recordedDifference x y held found :=
    admits.recordedDifference x y held (by rwa [tighten_differences] at found)
  recordedTotal x y held found :=
    admits.recordedTotal x y held (by rwa [tighten_totals] at found)
  subject subject present :=
    admits.subject subject (by rwa [tighten_subject] at present)
  named subject def_ present :=
    admits.named subject def_ (by rwa [tighten_subject] at present)

/-- The tables after a difference and its mirror image are written. -/
def recordDifference (facts : Facts) (a b : Term) (range : Range) : Facts :=
  { facts with
    differences :=
      (facts.differences.insert (a, b)
        ((facts.difference a b).meet range)).insert (b, a)
        ((facts.difference b a).meet ((facts.difference a b).meet range).negate) }

/-- Tightening a difference does nothing, or records it both ways round. -/
theorem tightenDifference_cases (facts : Facts) (a b : Term) (range : Range) :
    facts.tightenDifference a b range = (facts, false) ∨
      (a ≠ b ∧ facts.tightenDifference a b range =
        (facts.recordDifference a b range, true)) := by
  unfold tightenDifference
  split
  · exact Or.inl rfl
  · next apart =>
      simp only
      split
      · exact Or.inl rfl
      · exact Or.inr ⟨apart, rfl⟩

theorem find?_recordDifference (x y : Term) :
    (facts.recordDifference a b range).differences.find? (x, y) =
      if (b, a) = (x, y) then
        some ((facts.difference b a).meet
          ((facts.difference a b).meet range).negate)
      else if (a, b) = (x, y) then some ((facts.difference a b).meet range)
      else facts.differences.find? (x, y) := by
  unfold recordDifference
  simp only [Table.find?_insert]

theorem recorded_recordDifference (x y : Term) :
    (facts.recordDifference a b range).Recorded x y ↔
      (x, y) = (a, b) ∨ (x, y) = (b, a) ∨ facts.Recorded x y := by
  unfold Recorded recordDifference
  simp only [Table.find?_insert]
  split
  · next asked => simp [← asked]
  · next notMirror =>
      split
      · next asked => simp [← asked]
      · next notPair =>
          simp [Ne.symm notMirror, Ne.symm notPair]

/-- A difference may be recorded both ways round when both are words. -/
theorem Admits.recordDifference (admits : facts.Admits v)
    (allows : range.Allows (v.gap a b))
    (near : v.gap a b ≤ maxI64) (near' : v.gap b a ≤ maxI64) :
    (facts.recordDifference a b range).Admits v where
  term := admits.term
  recordedDifference x y held found := by
    have narrowed : ((facts.difference a b).meet range).Allows (v.gap a b) :=
      (admits.difference a b).meet allows
    obtain ⟨fits, negFits⟩ := v.gap_inI64 near near'
    have mirrored : ((facts.difference a b).meet range).negate.Allows
        (v.gap b a) := by
      rw [← v.neg_gap a b]
      exact Range.Allows.of_mem (Range.mem_negate (narrowed.mem fits) negFits)
    rw [find?_recordDifference] at found
    split at found
    · next asked =>
        obtain ⟨rfl, rfl⟩ := Prod.mk.inj asked
        cases found
        exact (admits.difference b a).meet mirrored
    · split at found
      · next asked =>
          obtain ⟨rfl, rfl⟩ := Prod.mk.inj asked
          cases found
          exact narrowed
      · exact admits.recordedDifference x y held found
  recordedTotal := admits.recordedTotal
  subject := admits.subject
  named := admits.named

end Tables

/-! ## Settling -/

section Settle

variable {v : Valuation} {linked : Term → Term → Prop}

/-- What every step of propagation keeps: the state is admitted and every
recorded difference is between linked terms. -/
structure Settles (facts : Facts) (v : Valuation)
    (linked : Term → Term → Prop) : Prop where
  admits : facts.Admits v
  within : ∀ a b, facts.Recorded a b → linked a b

theorem Settles.tighten {facts : Facts} {term : Term} {range : Range}
    (settles : facts.Settles v linked) (member : (v.term term).toInt ∈ range) :
    (facts.tighten term range).1.Settles v linked where
  admits := settles.admits.tighten member
  within a b recorded := settles.within a b (by
    unfold Recorded at recorded ⊢
    rwa [tighten_differences] at recorded)

variable (equivalence : Equivalence linked)
  (near : ∀ a b, linked a b → v.gap a b ≤ maxI64)

include equivalence near

theorem Settles.tightenDifference {facts : Facts} {a b : Term} {range : Range}
    (settles : facts.Settles v linked)
    (pair : linked a b) (allows : range.Allows (v.gap a b)) :
    (facts.tightenDifference a b range).1.Settles v linked := by
  have mirror := equivalence.symm pair
  rcases tightenDifference_cases facts a b range with same | ⟨-, same⟩
  · rw [same]
    exact settles
  · rw [same]
    refine ⟨settles.admits.recordDifference allows (near a b pair)
      (near b a mirror), fun x y recorded => ?_⟩
    rcases (recorded_recordDifference x y).1 recorded with asked | asked | old
    · obtain ⟨rfl, rfl⟩ := Prod.mk.inj asked
      exact pair
    · obtain ⟨rfl, rfl⟩ := Prod.mk.inj asked
      exact mirror
    · exact settles.within x y old

/-- A recorded difference between linked terms holds its value, not only
allows it. -/
theorem mem_entry {entry : (Term × Term) × Range}
    (pair : linked entry.1.1 entry.1.2)
    (allows : entry.2.Allows (v.gap entry.1.1 entry.1.2)) :
    v.gap entry.1.1 entry.1.2 ∈ entry.2 :=
  allows.mem (v.gap_inI64 (near _ _ pair)
    (near _ _ (equivalence.symm pair))).1

theorem settlePair_settles {facts : Facts} {changed : Bool}
    {entry : (Term × Term) × Range} (pair : linked entry.1.1 entry.1.2)
    (allows : entry.2.Allows (v.gap entry.1.1 entry.1.2))
    (settles : facts.Settles v linked) :
    (settlePair (facts, changed) entry).1.Settles v linked := by
  obtain ⟨⟨a, b⟩, range⟩ := entry
  have member : v.gap a b ∈ range := mem_entry equivalence near pair allows
  obtain ⟨-, negFits⟩ := v.gap_inI64 (near a b pair)
    (near b a (equivalence.symm pair))
  have fromB : (v.term a).toInt ∈ (facts.get b).shift range := by
    have sum : (v.term a).toInt = (v.term b).toInt + v.gap a b := by
      unfold Valuation.gap
      ring
    rw [sum]
    exact Range.mem_shift (settles.admits.term b) member (sum ▸ inI64_toInt _)
  have ofB := settles.tighten fromB
  have fromA : (v.term b).toInt ∈
      ((facts.tighten a ((facts.get b).shift range)).1.get a).shift
        ((Range.exactly 0).spread range) := by
    have sum : (v.term b).toInt = (v.term a).toInt + (0 - v.gap a b) := by
      unfold Valuation.gap
      ring
    rw [sum]
    refine Range.mem_shift (ofB.admits.term a) ?_ (sum ▸ inI64_toInt _)
    exact Range.mem_spread (Range.mem_exactly.2 rfl) member (by rwa [zero_sub])
  have ofA := ofB.tighten fromA
  exact ofA.tightenDifference equivalence near pair
    (Range.allows_spread (ofA.admits.term a) (ofA.admits.term b))

theorem settleChain_settles {facts : Facts} {changed : Bool}
    {first second : (Term × Term) × Range}
    (firstPair : linked first.1.1 first.1.2)
    (firstAllows : first.2.Allows (v.gap first.1.1 first.1.2))
    (secondPair : linked second.1.1 second.1.2)
    (secondAllows : second.2.Allows (v.gap second.1.1 second.1.2))
    (settles : facts.Settles v linked) :
    (settleChain (facts, changed) (first, second)).1.Settles v linked := by
  obtain ⟨⟨a, b⟩, firstRange⟩ := first
  obtain ⟨⟨c, d⟩, secondRange⟩ := second
  have firstMem := mem_entry equivalence near firstPair firstAllows
  have secondMem := mem_entry equivalence near secondPair secondAllows
  simp only at firstPair firstMem secondPair secondMem
  unfold settleChain
  simp only
  split
  · next chained =>
      obtain ⟨rfl, -⟩ := chained
      have sum : v.gap a d = v.gap a b + v.gap b d := by
        unfold Valuation.gap
        ring
      refine settles.tightenDifference equivalence near
        (equivalence.trans firstPair secondPair) ?_
      rw [sum]
      exact Range.allows_shift firstMem secondMem
  · exact settles

theorem settleOnce_settles (order : WalkOrder) {facts : Facts}
    (settles : facts.Settles v linked) :
    (facts.settleOnce order).1.Settles v linked := by
  have good : ∀ entry ∈ order.entries facts.differences,
      linked entry.1.1 entry.1.2 ∧
        entry.2.Allows (v.gap entry.1.1 entry.1.2) := by
    rintro ⟨⟨a, b⟩, range⟩ member
    have found := Table.find?_of_mem ((order.perm _).mem_iff.1 member)
    exact ⟨settles.within a b (by simp [Recorded, found]),
      settles.admits.recordedDifference a b range found⟩
  unfold settleOnce
  simp only
  refine List.foldlRecOn _ settleChain
    (motive := fun state => state.1.Settles v linked) ?_ ?_
  · have start : ((facts, false) : Facts × Bool).1.Settles v linked := settles
    refine List.foldlRecOn _ settlePair
      (motive := fun state => state.1.Settles v linked) start ?_
    intro state kept entry member
    exact settlePair_settles equivalence near (good entry member).1
      (good entry member).2 kept
  · intro state kept pair member
    obtain ⟨first, firstMem, rest⟩ := List.mem_flatMap.1 member
    obtain ⟨second, secondMem, rfl⟩ := List.mem_map.1 rest
    exact settleChain_settles equivalence near (good first firstMem).1
      (good first firstMem).2 (good second secondMem).1
      (good second secondMem).2 kept

theorem settleFor_settles (order : WalkOrder) (fuel : Nat) {facts : Facts}
    (settles : facts.Settles v linked) :
    (facts.settleFor order fuel).Settles v linked := by
  induction fuel generalizing facts with
  | zero => exact settles
  | succ fuel ih =>
      have next := settleOnce_settles equivalence near order settles
      unfold settleFor
      simp only
      split
      · exact ih next
      · exact next

end Settle

/-! ## The subject is never touched -/

section SubjectKept

variable {facts : Facts} {a b term : Term} {range : Range}

theorem tightenDifference_subject :
    (facts.tightenDifference a b range).1.subject = facts.subject := by
  rcases tightenDifference_cases facts a b range with same | ⟨-, same⟩
  · rw [same]
  · rw [same]
    rfl

theorem settlePair_subject (state : Facts × Bool)
    (entry : (Term × Term) × Range) :
    (settlePair state entry).1.subject = state.1.subject := by
  unfold settlePair
  simp only [tightenDifference_subject, tighten_subject]

theorem settleChain_subject (state : Facts × Bool)
    (entries : ((Term × Term) × Range) × ((Term × Term) × Range)) :
    (settleChain state entries).1.subject = state.1.subject := by
  unfold settleChain
  simp only
  split
  · exact tightenDifference_subject
  · rfl

theorem settleOnce_subject (order : WalkOrder) (facts : Facts) :
    (facts.settleOnce order).1.subject = facts.subject := by
  unfold settleOnce
  simp only
  refine List.foldlRecOn _ settleChain
    (motive := fun state => state.1.subject = facts.subject) ?_ ?_
  · have start : ((facts, false) : Facts × Bool).1.subject = facts.subject := rfl
    refine List.foldlRecOn _ settlePair
      (motive := fun state => state.1.subject = facts.subject) start ?_
    intro state kept entry _
    exact (settlePair_subject state entry).trans kept
  · intro state kept pair _
    exact (settleChain_subject state pair).trans kept

theorem settle_subject (order : WalkOrder) (facts : Facts) :
    (facts.settle order).subject = facts.subject := by
  unfold settle
  generalize rounds = fuel
  induction fuel generalizing facts with
  | zero => rfl
  | succ fuel ih =>
      have once := settleOnce_subject order facts
      unfold settleFor
      simp only
      split
      · exact (ih _).trans once
      · exact once

theorem narrow_subject (order : WalkOrder) :
    (facts.narrow order term range).subject = facts.subject := by
  unfold Facts.narrow
  simp only
  split
  · exact (settle_subject order _).trans tighten_subject
  · exact tighten_subject

theorem narrowDifference_subject (order : WalkOrder) :
    (facts.narrowDifference order a b range).subject = facts.subject := by
  unfold Facts.narrowDifference
  simp only
  split
  · exact (settle_subject order _).trans tightenDifference_subject
  · exact tightenDifference_subject

end SubjectKept

section Narrow

variable {facts : Facts} {v : Valuation} {a b term : Term} {range : Range}

/-- Settling rules no state out while linked terms are close. -/
theorem Admits.settle (admits : facts.Admits v) (close : facts.Close v)
    (order : WalkOrder) : (facts.settle order).Admits v := by
  have settles : facts.Settles v facts.Linked :=
    ⟨admits, fun a b recorded => Relation.EqvGen.rel a b recorded⟩
  exact (settleFor_settles (Relation.EqvGen.is_equivalence _) close order
    rounds settles).admits

theorem Admits.narrow (admits : facts.Admits v)
    (member : (v.term term).toInt ∈ range)
    (exact_ : facts.NarrowExact v term range) (order : WalkOrder) :
    (facts.narrow order term range).Admits v := by
  have tightened := admits.tighten member
  unfold Facts.narrow
  simp only
  split
  · next changed =>
      refine tightened.settle ?_ order
      have news : (facts.get term).meet range ≠ facts.get term := by
        intro same
        simp [Facts.tighten, same] at changed
      have close := exact_ news
      intro x y chain
      refine close x y ?_
      unfold Linked Recorded at chain ⊢
      rwa [tighten_differences] at chain
  · exact tightened

theorem Admits.narrowDifference (admits : facts.Admits v)
    (allows : range.Allows (v.gap a b))
    (exact_ : facts.NarrowDifferenceExact v a b range) (order : WalkOrder) :
    (facts.narrowDifference order a b range).Admits v := by
  unfold Facts.narrowDifference
  unfold NarrowDifferenceExact at exact_
  rcases tightenDifference_cases facts a b range with same | ⟨apart, same⟩
  · rw [same]
    exact admits
  · rw [same] at exact_ ⊢
    have close := exact_ rfl
    have pair : (facts.recordDifference a b range).Linked a b :=
      Relation.EqvGen.rel a b ((recorded_recordDifference a b).2 (Or.inl rfl))
    have recorded := admits.recordDifference allows (close a b pair)
      (close b a (pair.symm _ _))
    exact recorded.settle close order

theorem Admits.narrowTotal (admits : facts.Admits v)
    (allows : range.Allows (v.total a b)) :
    (facts.narrowTotal a b range).Admits v where
  term := admits.term
  recordedDifference := admits.recordedDifference
  recordedTotal x y held found := by
    have narrowed := (admits.total a b).meet allows
    have mirror : v.total b a = v.total a b := by
      unfold Valuation.total
      ring
    unfold Facts.narrowTotal at found
    simp only [Table.find?_insert] at found
    split at found
    · next asked =>
        obtain ⟨rfl, rfl⟩ := Prod.mk.inj asked
        cases found
        rw [mirror]
        exact narrowed
    · split at found
      · next asked =>
          obtain ⟨rfl, rfl⟩ := Prod.mk.inj asked
          cases found
          exact narrowed
      · exact admits.recordedTotal x y held found
  subject := admits.subject
  named := admits.named

end Narrow

end Facts

end Deed.Typeck
