import Deed.Driver.Fix
import Deed.Lexer.Reading
import Deed.Library.Sorted
import Deed.Library.Survivors

/-!
# What fixing a text does

The edits that are kept do not overlap and come from whole fixes, and applying them changes
their spans and nothing else.  Which edits are kept depends on the order of the diagnostics
exactly where several fixes insert at one point that another edit reaches beyond.
-/

namespace Deed.Driver.Fixing

open Deed.Library Deed.Lexer

/-! ## The order of the edits -/

variable {a b c : Ast.Span}

theorem SortedBefore.trans (first : SortedBefore a b) (second : SortedBefore b c) :
    SortedBefore a c := by
  unfold SortedBefore at *
  omega

theorem SortedBefore.total (a b : Ast.Span) : SortedBefore a b ∨ SortedBefore b a := by
  unfold SortedBefore
  omega

theorem SortedBefore.antisymm (first : SortedBefore a b) (second : SortedBefore b a) : a = b := by
  unfold SortedBefore at *
  cases a
  cases b
  congr 1 <;> dsimp only at * <;> omega

variable {fixes : List Fix} {edit : SuggestedEdit} {owner i j : Nat}

theorem mem_owned : (owner, edit) ∈ owned fixes ↔
    ∃ fix, fixes[owner]? = some fix ∧ edit ∈ fix.edits := by
  rw [owned, List.mem_flatMap]
  constructor
  · rintro ⟨⟨fix, place⟩, member, within⟩
    rcases List.mem_map.1 within with ⟨edit', inside, same⟩
    rcases Prod.mk.inj same with ⟨rfl, rfl⟩
    exact ⟨fix, List.mem_zipIdx_iff_getElem?.1 member, inside⟩
  · rintro ⟨fix, found, inside⟩
    exact ⟨(fix, owner), List.mem_zipIdx_iff_getElem?.2 found,
      List.mem_map.2 ⟨edit, inside, rfl⟩⟩

/-- The fixes give their edits one fix after the other. -/
theorem owned_pairwise (fixes : List Fix) :
    (owned fixes).Pairwise fun before after => before.1 ≤ after.1 := by
  rw [owned, List.pairwise_flatMap]
  constructor
  · rintro ⟨fix, place⟩ -
    apply List.pairwise_map.2
    exact List.pairwise_of_forall fun _ _ => le_rfl
  · apply List.pairwise_iff_getElem.2
    intro i j below below' before one first other second
    rw [List.getElem_zipIdx] at first second
    rcases List.mem_map.1 first with ⟨edit, -, rfl⟩
    rcases List.mem_map.1 second with ⟨edit, -, rfl⟩
    dsimp only
    omega

/-- The edits as `collect` sorts them. -/
def sortedOwned (fixes : List Fix) : List Owned := sortEdits (owned fixes)

theorem mem_sortedOwned : (owner, edit) ∈ sortedOwned fixes ↔
    ∃ fix, fixes[owner]? = some fix ∧ edit ∈ fix.edits := by
  rw [sortedOwned, sortEdits, List.mem_insertionSort, mem_owned]

theorem sortedOwned_pairwise (fixes : List Fix) :
    (sortedOwned fixes).Pairwise fun before after =>
      SortedBefore before.2.span after.2.span ∧
        (SortedBefore after.2.span before.2.span → before.1 ≤ after.1) :=
  pairwise_insertionSort_stable
    (fun before after : Owned => SortedBefore before.2.span after.2.span)
    (fun _ _ _ => SortedBefore.trans)
    (fun _ _ => SortedBefore.total _ _) (owned_pairwise fixes)

/-- The spans of all edits in their order, which is not the order of the fixes. -/
def spans (fixes : List Fix) : List Ast.Span :=
  ((fixes.flatMap Fix.edits).map SuggestedEdit.span).insertionSort SortedBefore

theorem map_owned (fixes : List Fix) : (owned fixes).map Prod.snd = fixes.flatMap Fix.edits := by
  rw [owned, List.map_flatMap]
  simp only [List.map_map]
  have same : fixes.flatMap Fix.edits =
      ((fixes.zipIdx).map Prod.fst).flatMap Fix.edits := by
    rw [List.zipIdx_map_fst]
  rw [same, List.flatMap_map]
  congr 1
  ext pair
  rw [Function.comp_def, List.map_id']

theorem spans_pairwise (fixes : List Fix) : (spans fixes).Pairwise SortedBefore := by
  have : Std.Total SortedBefore := ⟨SortedBefore.total⟩
  have : IsTrans Ast.Span SortedBefore := ⟨fun _ _ _ => SortedBefore.trans⟩
  exact List.pairwise_insertionSort _ _

theorem map_sortedOwned (fixes : List Fix) :
    (sortedOwned fixes).map (fun edit => edit.2.span) = spans fixes := by
  rw [spans, ← map_owned, List.map_map]
  exact List.map_insertionSort _ _ _ _ fun _ _ _ _ => Iff.rfl

theorem spans_perm {fixes' : List Fix} (perm : fixes.Perm fixes') : spans fixes = spans fixes' := by
  have same : (spans fixes).Perm (spans fixes') :=
    (List.perm_insertionSort _ _).trans
      (((perm.flatMap_right _).map _).trans (List.perm_insertionSort _ _).symm)
  exact same.eq_of_pairwise (fun _ _ _ _ => SortedBefore.antisymm) (spans_pairwise fixes)
    (spans_pairwise fixes')

/-! ## Runs of edits -/

variable {edits : List Owned} {count : Nat} {walk : Walk}

/-- Whether an edit overlaps one beside it. -/
def Clashes (edits : List Owned) (j : Nat) : Prop :=
  0 < j ∧ runBreaks edits j = false ∨ runBreaks edits (j + 1) = false

theorem runBreaks_eq_false : runBreaks edits (j + 1) = false ↔
    ∃ before after, edits[j]? = some before ∧ edits[j + 1]? = some after ∧
      after.2.span.start < before.2.span.stop := by
  rw [runBreaks, Nat.add_sub_cancel]
  cases edits[j]? with
  | none => simp
  | some before =>
      cases edits[j + 1]? with
      | none => simp
      | some after => simp [overlaps]

theorem runBreaks_length (edits : List Owned) : runBreaks edits edits.length = true := by
  rw [runBreaks, List.getElem?_eq_none le_rfl]
  cases edits[edits.length - 1]? <;> rfl

@[simp]
theorem length_refuse (refused : List Bool) (run : List Owned) :
    (refuse refused run).length = refused.length := by
  induction run generalizing refused with
  | nil => rfl
  | cons edit run ih => exact (ih _).trans List.length_set

theorem getD_refuse {refused : List Bool} (inside : owner < refused.length) (run : List Owned) :
    (refuse refused run).getD owner false = true ↔
      refused.getD owner false = true ∨ ∃ edit ∈ run, edit.1 = owner := by
  induction run generalizing refused with
  | nil => simp [refuse]
  | cons edit run ih =>
      have next : refuse refused (edit :: run) = refuse (refused.set edit.1 true) run := rfl
      rw [next, ih (by rwa [List.length_set]), List.exists_mem_cons_iff, ← or_assoc]
      apply or_congr_left
      by_cases same : edit.1 = owner
      · simp [same, inside]
      · simp [same, List.getD_eq_getElem?_getD, List.getElem?_set_ne same]

/-- After some turns every run that has ended is refused where it holds more than one edit. -/
structure Walked (edits : List Owned) (count : Nat) (walk : Walk) (turns : Nat) : Prop where
  runStart_le : walk.runStart ≤ turns
  run : ∀ j, walk.runStart < j → j ≤ turns → runBreaks edits j = false
  fresh : walk.runStart = 0 ∨ runBreaks edits walk.runStart = true
  length : walk.refused.length = count
  refused : ∀ owner < count, walk.refused.getD owner false = true ↔
    ∃ j < walk.runStart, ∃ edit, edits[j]? = some edit ∧ edit.1 = owner ∧ Clashes edits j

/-- The edits of a run clash exactly where it holds more than one. -/
theorem Walked.clashes_iff {turns : Nat} (walked : Walked edits count walk turns)
    (breaks : runBreaks edits (turns + 1) = true) (from_ : walk.runStart ≤ j) (upTo : j ≤ turns) :
    Clashes edits j ↔ walk.runStart < turns := by
  constructor
  · rintro (⟨positive, overlap⟩ | overlap)
    · rcases Nat.lt_or_ge walk.runStart j with later | first
      · omega
      · rcases walked.fresh with zero | fresh
        · omega
        · rw [Nat.le_antisymm from_ first, overlap] at fresh
          exact absurd fresh Bool.false_ne_true
    · rcases Nat.lt_or_ge j turns with before | last
      · omega
      · rw [Nat.le_antisymm upTo last, breaks] at overlap
        exact absurd overlap.symm Bool.false_ne_true
  · intro several
    rcases Nat.lt_or_ge j turns with before | last
    · exact .inr (walked.run (j + 1) (by omega) before)
    · exact .inl ⟨by omega, walked.run j (by omega) upTo⟩

theorem Walked.step {turns : Nat} (walked : Walked edits count walk turns) :
    Walked edits count (walkStep edits walk (turns + 1)) (turns + 1) := by
  rw [walkStep]
  by_cases breaks : runBreaks edits (turns + 1) = true
  · rw [if_pos breaks]
    have start := walked.runStart_le
    refine ⟨le_rfl, fun j after upTo => absurd upTo (Nat.not_le_of_lt after), .inr breaks, ?_, ?_⟩
    · dsimp only
      split
      · rw [length_refuse, walked.length]
      · exact walked.length
    · intro owner below
      -- The runs before, and the run that ends here.
      have split : (∃ j < turns + 1, ∃ edit, edits[j]? = some edit ∧ edit.1 = owner ∧
            Clashes edits j) ↔
          (∃ j < walk.runStart, ∃ edit, edits[j]? = some edit ∧ edit.1 = owner ∧
            Clashes edits j) ∨
          ∃ j, walk.runStart ≤ j ∧ j < turns + 1 ∧
            ∃ edit, edits[j]? = some edit ∧ edit.1 = owner ∧ walk.runStart < turns := by
        constructor
        · rintro ⟨j, upTo, edit, found, owns, clash⟩
          rcases Nat.lt_or_ge j walk.runStart with before | within
          · exact .inl ⟨j, before, edit, found, owns, clash⟩
          · exact .inr ⟨j, within, upTo, edit, found, owns,
              (walked.clashes_iff breaks within (Nat.le_of_lt_succ upTo)).1 clash⟩
        · rintro (⟨j, before, edit, found, owns, clash⟩ | ⟨j, within, upTo, edit, found, owns, several⟩)
          · exact ⟨j, by omega, edit, found, owns, clash⟩
          · exact ⟨j, upTo, edit, found, owns,
              (walked.clashes_iff breaks within (Nat.le_of_lt_succ upTo)).2 several⟩
      rw [split, ← walked.refused owner below]
      dsimp only
      by_cases several : 1 < turns + 1 - walk.runStart
      · rw [if_pos several, getD_refuse (by rwa [walked.length])]
        apply or_congr_right
        constructor
        · rintro ⟨edit, member, owns⟩
          rcases List.mem_iff_getElem?.1 member with ⟨k, found⟩
          rw [List.getElem?_take] at found
          split at found
          · next below =>
              rw [List.getElem?_drop] at found
              exact ⟨walk.runStart + k, Nat.le_add_right _ _, by omega, edit, found, owns,
                by omega⟩
          · exact absurd found.symm (Option.some_ne_none _)
        · rintro ⟨j, within, upTo, edit, found, owns, -⟩
          refine ⟨edit, List.mem_iff_getElem?.2 ⟨j - walk.runStart, ?_⟩, owns⟩
          rw [List.getElem?_take, if_pos (by omega), List.getElem?_drop,
            Nat.add_sub_cancel' within]
          exact found
      · rw [if_neg several]
        constructor
        · exact .inl
        · rintro (refused | ⟨j, -, -, -, -, -, more⟩)
          · exact refused
          · omega
  · rw [if_neg breaks]
    refine ⟨Nat.le_succ_of_le walked.runStart_le, ?_, walked.fresh, walked.length, walked.refused⟩
    intro j after upTo
    rcases Nat.lt_or_ge turns j with last | before
    · rw [Nat.le_antisymm upTo last]
      exact Bool.eq_false_of_not_eq_true breaks
    · exact walked.run j after before

theorem walked (edits : List Owned) (count turns : Nat) :
    Walked edits count
      ((List.range' 1 turns).foldl (walkStep edits) ⟨List.replicate count false, 0⟩) turns := by
  induction turns with
  | zero =>
      refine ⟨le_rfl, fun j after upTo => absurd upTo (Nat.not_le_of_lt after), .inl rfl,
        List.length_replicate, ?_⟩
      intro owner below
      simp [below]
  | succ turns ih =>
      rw [List.range'_1_concat, List.foldl_append, Nat.add_comm 1 turns]
      exact ih.step

@[simp]
theorem length_refusals (count : Nat) (edits : List Owned) :
    (refusals count edits).length = count :=
  (walked edits count edits.length).length

/-- A fix is refused when one of its edits overlaps the edit before it or the one after it. -/
theorem refusals_iff (inside : owner < count) :
    (refusals count edits).getD owner false = true ↔
      ∃ j edit, edits[j]? = some edit ∧ edit.1 = owner ∧ Clashes edits j := by
  have all := walked edits count edits.length
  rw [refusals, all.refused owner inside]
  constructor
  · rintro ⟨j, -, found⟩
    exact ⟨j, found⟩
  · rintro ⟨j, edit, found, owns, clash⟩
    refine ⟨j, ?_, edit, found, owns, clash⟩
    have below := (List.getElem?_eq_some_iff.1 found).1
    rcases Nat.lt_or_ge j ((List.range' 1 edits.length).foldl (walkStep edits)
      ⟨List.replicate count false, 0⟩).runStart with before | after
    · exact before
    · -- The last run ends with the last edit.
      have ends := all.run edits.length (by omega) le_rfl
      rw [runBreaks_length] at ends
      exact absurd ends.symm Bool.false_ne_true

/-! ## Who is refused -/

/-- Whether a span is the one of two neighbours that overlap. -/
def Crosses (spans : List Ast.Span) (span : Ast.Span) : Prop :=
  ∃ i before after, spans[i]? = some before ∧ spans[i + 1]? = some after ∧
    after.start < before.stop ∧ (before = span ∨ after = span)

/-- An edit that puts nothing away. -/
def Empty (span : Ast.Span) : Prop := span.start = span.stop

/-- A fix that is refused for an edit which is no insertion. -/
def Overlapped (spans : List Ast.Span) (fix : Fix) : Prop :=
  ∃ edit ∈ fix.edits, ¬Empty edit.span ∧ Crosses spans edit.span

/-- A fix that inserts at a point which the edit sorted before it reaches beyond. -/
def InsertsWithin (spans : List Ast.Span) (fix : Fix) (span : Ast.Span) : Prop :=
  Empty span ∧ Crosses spans span ∧ ∃ edit ∈ fix.edits, edit.span = span

/-- Every span of the fixes runs forward. -/
def Forward (fixes : List Fix) : Prop :=
  ∀ fix ∈ fixes, ∀ edit ∈ fix.edits, edit.span.start ≤ edit.span.stop

theorem getElem?_spans (fixes : List Fix) (i : Nat) :
    (spans fixes)[i]? = (sortedOwned fixes)[i]?.map fun edit => edit.2.span := by
  rw [← map_sortedOwned, List.getElem?_map]

theorem sortedBefore_of_le {before after : Owned} (first : (sortedOwned fixes)[i]? = some before)
    (second : (sortedOwned fixes)[j]? = some after) (order : i ≤ j) :
    SortedBefore before.2.span after.2.span := by
  rcases Nat.lt_or_eq_of_le order with less | rfl
  · rcases List.getElem?_eq_some_iff.1 first with ⟨below, rfl⟩
    rcases List.getElem?_eq_some_iff.1 second with ⟨below', rfl⟩
    exact (List.pairwise_iff_getElem.1 (sortedOwned_pairwise fixes) i j below below' less).1
  · rw [first] at second
    rw [Option.some.inj second]
    exact .inr ⟨rfl, le_rfl⟩

/-- Of insertions at one point the ones of earlier fixes come first. -/
theorem owner_le {before after : Owned} (first : (sortedOwned fixes)[i]? = some before)
    (second : (sortedOwned fixes)[j]? = some after) (order : i ≤ j)
    (same : before.2.span = after.2.span) : before.1 ≤ after.1 := by
  rcases Nat.lt_or_eq_of_le order with less | rfl
  · rcases List.getElem?_eq_some_iff.1 first with ⟨below, rfl⟩
    rcases List.getElem?_eq_some_iff.1 second with ⟨below', rfl⟩
    apply (List.pairwise_iff_getElem.1 (sortedOwned_pairwise fixes) i j below below' less).2
    rw [same]
    exact .inr ⟨rfl, le_rfl⟩
  · rw [first] at second
    rw [Option.some.inj second]

theorem clashes_iff : Clashes (sortedOwned fixes) j ↔
    (∃ i before after, (sortedOwned fixes)[i]? = some before ∧
      (sortedOwned fixes)[i + 1]? = some after ∧ after.2.span.start < before.2.span.stop ∧
        (j = i ∨ j = i + 1)) := by
  constructor
  · rintro (⟨positive, overlap⟩ | overlap)
    · rcases Nat.exists_eq_add_of_lt positive with ⟨i, rfl⟩
      rw [Nat.zero_add] at overlap
      rcases runBreaks_eq_false.1 overlap with ⟨before, after, first, second, reach⟩
      exact ⟨i, before, after, first, second, reach, .inr (by omega)⟩
    · rcases runBreaks_eq_false.1 overlap with ⟨before, after, first, second, reach⟩
      exact ⟨j, before, after, first, second, reach, .inl rfl⟩
  · rintro ⟨i, before, after, first, second, reach, rfl | rfl⟩
    · exact .inr (runBreaks_eq_false.2 ⟨before, after, first, second, reach⟩)
    · exact .inl ⟨Nat.succ_pos _, runBreaks_eq_false.2 ⟨before, after, first, second, reach⟩⟩

theorem crosses_of_clashes {mine : Owned} (found : (sortedOwned fixes)[j]? = some mine)
    (clash : Clashes (sortedOwned fixes) j) : Crosses (spans fixes) mine.2.span := by
  rcases clashes_iff.1 clash with ⟨i, before, after, first, second, reach, rfl | rfl⟩
  · refine ⟨j, before.2.span, after.2.span, ?_, ?_, reach, .inl ?_⟩
    · rw [getElem?_spans, first]; rfl
    · rw [getElem?_spans, second]; rfl
    · rw [Option.some.inj (first.symm.trans found)]
  · refine ⟨i, before.2.span, after.2.span, ?_, ?_, reach, .inr ?_⟩
    · rw [getElem?_spans, first]; rfl
    · rw [getElem?_spans, second]; rfl
    · rw [Option.some.inj (second.symm.trans found)]

/-- What the neighbours of a span that crosses one are edits of. -/
theorem crosses_iff {span : Ast.Span} : Crosses (spans fixes) span ↔
    ∃ i before after, (sortedOwned fixes)[i]? = some before ∧
      (sortedOwned fixes)[i + 1]? = some after ∧ after.2.span.start < before.2.span.stop ∧
        (before.2.span = span ∨ after.2.span = span) := by
  constructor
  · rintro ⟨i, before, after, first, second, reach, which⟩
    rw [getElem?_spans] at first second
    rcases Option.map_eq_some_iff.1 first with ⟨before', place, rfl⟩
    rcases Option.map_eq_some_iff.1 second with ⟨after', place', rfl⟩
    exact ⟨i, before', after', place, place', reach, which⟩
  · rintro ⟨i, before, after, first, second, reach, which⟩
    refine ⟨i, before.2.span, after.2.span, ?_, ?_, reach, which⟩
    · rw [getElem?_spans, first]; rfl
    · rw [getElem?_spans, second]; rfl

/-- Two edits of one span that is not empty are next to such an edit each, and so all of them
clash where one does. -/
theorem clashes_of_crosses {mine : Owned} (found : (sortedOwned fixes)[j]? = some mine)
    (forward : mine.2.span.start < mine.2.span.stop) (crosses : Crosses (spans fixes) mine.2.span) :
    Clashes (sortedOwned fixes) j := by
  rcases crosses_iff.1 crosses with ⟨i, before, after, first, second, reach, which⟩
  have beside : ∀ {k : Nat} {other : Owned}, (sortedOwned fixes)[k]? = some other →
      other.2.span = mine.2.span → j ≠ k → Clashes (sortedOwned fixes) j := by
    intro k other there same apart
    rcases Nat.lt_or_gt_of_ne apart with less | more
    · have inside := (List.getElem?_eq_some_iff.1 there).1
      have next := List.getElem?_eq_getElem (l := sortedOwned fixes) (i := j + 1) (by omega)
      have between := sortedBefore_of_le found next (Nat.le_succ j)
      have between' := sortedBefore_of_le next there less
      rw [same] at between'
      refine clashes_iff.2 ⟨j, mine, _, found, next, ?_, .inl rfl⟩
      rw [← between.antisymm between']
      exact forward
    · have inside := (List.getElem?_eq_some_iff.1 found).1
      have next := List.getElem?_eq_getElem (l := sortedOwned fixes) (i := j - 1) (by omega)
      have between := sortedBefore_of_le there next (by omega)
      have between' := sortedBefore_of_le next found (by omega)
      rw [same] at between
      refine clashes_iff.2 ⟨j - 1, _, mine, next, ?_, ?_, .inr (by omega)⟩
      · rw [Nat.sub_add_cancel (by omega)]
        exact found
      · rw [← between.antisymm between']
        exact forward
  rcases which with same | same
  · by_cases here : j = i
    · exact clashes_iff.2 ⟨i, before, after, first, second, reach, .inl here⟩
    · exact beside first same here
  · by_cases here : j = i + 1
    · exact clashes_iff.2 ⟨i, before, after, first, second, reach, .inr here⟩
    · exact beside second same here

/-- An insertion crosses only the edit sorted before all the insertions at its point. -/
theorem crosses_empty {span : Ast.Span} (empty : Empty span) (crosses : Crosses (spans fixes) span) :
    ∃ i before after, (sortedOwned fixes)[i]? = some before ∧
      (sortedOwned fixes)[i + 1]? = some after ∧ after.2.span = span ∧
        span.start < before.2.span.stop ∧ before.2.span.start < span.start := by
  rcases crosses_iff.1 crosses with ⟨i, before, after, first, second, reach, which⟩
  have order := sortedBefore_of_le first second (Nat.le_succ i)
  unfold SortedBefore at order
  unfold Empty at empty
  rcases which with rfl | rfl
  · omega
  · exact ⟨i, before, after, first, second, rfl, reach, by omega⟩

/-- The fixes that some fixes before a place have among them. -/
theorem mem_take_reverse {fix : Fix} : fix ∈ (fixes.take owner).reverse ↔
    ∃ j < owner, fixes[j]? = some fix := by
  rw [List.mem_reverse, List.mem_iff_getElem?]
  constructor
  · rintro ⟨j, found⟩
    rw [List.getElem?_take] at found
    split at found
    · next below => exact ⟨j, below, found⟩
    · exact absurd found.symm (Option.some_ne_none _)
  · rintro ⟨j, below, found⟩
    exact ⟨j, by rw [List.getElem?_take, if_pos below, found]⟩

/-- A fix is refused where one of its edits that is no insertion clashes, or where it is the
first fix that inserts at a point which another edit reaches beyond. -/
theorem refused_iff (forward : Forward fixes) {fix : Fix} (found : fixes[owner]? = some fix) :
    (refusals fixes.length (sortedOwned fixes)).getD owner false = true ↔
      Dropped (Overlapped (spans fixes)) (InsertsWithin (spans fixes))
        (fixes.take owner).reverse fix := by
  rw [refusals_iff (List.getElem?_eq_some_iff.1 found).1]
  constructor
  · rintro ⟨j, ⟨owner', edit⟩, place, rfl, clash⟩
    rcases mem_sortedOwned.1 (List.mem_of_getElem? place) with ⟨fix', found', inside⟩
    rw [found] at found'
    cases Option.some.inj found'
    have crosses := crosses_of_clashes place clash
    by_cases empty : Empty edit.span
    · refine .inr ⟨edit.span, ⟨empty, crosses, edit, inside, rfl⟩, ?_⟩
      rintro earlier among ⟨-, -, edit', inside', same⟩
      rcases mem_take_reverse.1 among with ⟨number, below, there⟩
      rcases List.mem_iff_getElem?.1 (mem_sortedOwned.2 ⟨earlier, there, inside'⟩) with
        ⟨k, place'⟩
      rcases clashes_iff.1 clash with ⟨i, before, after, first, second, reach, rfl | rfl⟩
      · -- An insertion does not reach the edit after it.
        rw [place] at first
        cases Option.some.inj first
        have order := sortedBefore_of_le place second (Nat.le_succ j)
        unfold SortedBefore at order
        unfold Empty at empty
        dsimp only at order reach
        omega
      · rw [place] at second
        cases Option.some.inj second
        rcases Nat.lt_or_ge k (i + 1) with less | more
        · have order := sortedBefore_of_le place' first (Nat.le_of_lt_succ less)
          have order' := sortedBefore_of_le first place (Nat.le_succ i)
          dsimp only at order order' reach
          rw [same] at order
          rw [order'.antisymm order] at reach
          unfold Empty at empty
          omega
        · have := owner_le place place' more same.symm
          dsimp only at this
          omega
    · exact .inl ⟨edit, inside, empty, crosses⟩
  · rintro (⟨edit, inside, full, crosses⟩ | ⟨span, ⟨empty, crosses, edit, inside, rfl⟩, first⟩)
    · rcases List.mem_iff_getElem?.1 (mem_sortedOwned.2 ⟨fix, found, inside⟩) with ⟨j, place⟩
      refine ⟨j, _, place, rfl, clashes_of_crosses place ?_ crosses⟩
      have := forward fix (List.mem_of_getElem? found) edit inside
      exact lt_of_le_of_ne this full
    · rcases crosses_empty empty crosses with
        ⟨i, before, ⟨number, edit'⟩, place, place', same, reach, starts⟩
      dsimp only at same
      rcases List.mem_iff_getElem?.1 (mem_sortedOwned.2 ⟨fix, found, inside⟩) with ⟨k, there⟩
      rcases mem_sortedOwned.1 (List.mem_of_getElem? place') with ⟨fix', found', inside'⟩
      have after : i + 1 ≤ k := by
        by_contra less
        have order := sortedBefore_of_le there place (by omega)
        unfold SortedBefore at order
        dsimp only at order
        omega
      have least : owner ≤ number := by
        by_contra less
        refine first fix' (mem_take_reverse.2 ⟨number, by omega, found'⟩) ?_
        exact ⟨empty, crosses, edit', inside', same⟩
      have equal : number = owner :=
        Nat.le_antisymm (owner_le place' there after same) least
      refine ⟨i + 1, _, place', equal, clashes_iff.2 ⟨i, before, _, place, place', ?_, .inr rfl⟩⟩
      dsimp only
      rw [same]
      exact reach

/-! ## What is kept -/

/-- The fixes that are not refused. -/
noncomputable def kept (fixes : List Fix) : List Fix :=
  survivors (Overlapped (spans fixes)) (InsertsWithin (spans fixes)) [] fixes

theorem survivors_eq (forward : Forward fixes) (earlier : List Fix) {rest : List Fix}
    (whole : fixes = earlier ++ rest) :
    survivors (Overlapped (spans fixes)) (InsertsWithin (spans fixes)) earlier.reverse rest =
      ((rest.zipIdx earlier.length).filter fun fix =>
        !(refusals fixes.length (sortedOwned fixes)).getD fix.2 false).map Prod.fst := by
  induction rest generalizing earlier with
  | nil => rfl
  | cons fix rest ih =>
      have next := ih (earlier ++ [fix]) (by rw [whole, List.append_assoc]; rfl)
      rw [List.reverse_append, List.length_append] at next
      have found : fixes[earlier.length]? = some fix := by
        rw [whole, List.getElem?_append_right le_rfl, Nat.sub_self]
        rfl
      have dropped := refused_iff forward found
      have before : fixes.take earlier.length = earlier := by
        rw [whole, List.take_left]
      rw [before] at dropped
      rw [survivors, List.zipIdx_cons, List.filter_cons]
      by_cases refused : (refusals fixes.length (sortedOwned fixes)).getD earlier.length false = true
      · rw [if_pos (dropped.1 refused), if_neg (by simp only [refused]; decide)]
        exact next
      · rw [if_neg fun drop => refused (dropped.2 drop), if_pos (by simpa using refused),
          List.map_cons]
        exact congrArg (fix :: ·) next

theorem kept_eq (forward : Forward fixes) : kept fixes =
    (fixes.zipIdx.filter fun fix =>
      !(refusals fixes.length (sortedOwned fixes)).getD fix.2 false).map Prod.fst :=
  survivors_eq forward [] rfl

theorem filter_owned (keep : Nat → Bool) (numbered : List (Fix × Nat)) :
    ((numbered.flatMap fun fix => fix.1.edits.map fun edit => (fix.2, edit)).filter
        fun edit => keep edit.1).map Prod.snd =
      ((numbered.filter fun fix => keep fix.2).map Prod.fst).flatMap Fix.edits := by
  induction numbered with
  | nil => rfl
  | cons fix numbered ih =>
      rw [List.flatMap_cons, List.filter_append, List.map_append, ih, List.filter_cons]
      have own : ((fix.1.edits.map fun edit => (fix.2, edit)).filter
          fun edit => keep edit.1).map Prod.snd = if keep fix.2 then fix.1.edits else [] := by
        by_cases keeps : keep fix.2 <;> simp [List.filter_map, Function.comp_def, keeps]
      rw [own]
      by_cases keeps : keep fix.2
      · rw [if_pos keeps, if_pos keeps, List.map_cons, List.flatMap_cons]
      · rw [if_neg keeps, if_neg keeps, List.nil_append]

variable {diagnostics reordered : List Diagnostic}

theorem collect_perm (forward : Forward (certain diagnostics)) :
    (collect diagnostics).edits.Perm ((kept (certain diagnostics)).flatMap Fix.edits) := by
  rw [kept_eq forward, ← filter_owned fun number =>
    !(refusals (certain diagnostics).length (sortedOwned (certain diagnostics))).getD number false]
  exact ((List.perm_insertionSort _ _).filter _).map _

theorem count_false (refused : List Bool) {fixes : List Fix} (length : refused.length = fixes.length) :
    refused.count false = (fixes.zipIdx.filter fun fix => !refused.getD fix.2 false).length := by
  have numbers : fixes.zipIdx.map Prod.snd = List.range refused.length := by
    rw [List.zipIdx_map_snd, length, List.range_eq_range']
  have values : (List.range refused.length).map (fun number => !refused.getD number false) =
      refused.map (!·) := by
    apply List.ext_getElem
    · rw [List.length_map, List.length_map, List.length_range]
    · intro number below below'
      rw [List.length_map] at below'
      simp [below']
  rw [← List.countP_eq_length_filter]
  calc refused.count false = (refused.map (!·)).countP id := by
        rw [List.countP_map, List.count]
        congr 1
        ext value
        cases value <;> rfl
    _ = (fixes.zipIdx.map Prod.snd).countP fun number => !refused.getD number false := by
        rw [← values, ← numbers, List.countP_map]
        rfl
    _ = _ := List.countP_map

theorem collect_fixes (forward : Forward (certain diagnostics)) :
    (collect diagnostics).fixes = (kept (certain diagnostics)).length := by
  rw [kept_eq forward, List.length_map]
  exact count_false _ (length_refusals _ _)

theorem kept_sublist (fixes : List Fix) : (kept fixes).Sublist fixes := by
  have all : ∀ earlier list : List Fix, (survivors (Overlapped (spans fixes))
      (InsertsWithin (spans fixes)) earlier list).Sublist list := by
    intro earlier list
    induction list generalizing earlier with
    | nil => exact List.Sublist.slnil
    | cons fix list ih =>
        rw [survivors]
        split
        · exact (ih _).cons fix
        · exact (ih _).cons_cons fix
  exact all [] fixes

/-- Two edits that are kept are no neighbours that overlap, and so neither are those with others
between them. -/
theorem collect_apart (diagnostics : List Diagnostic) :
    (collect diagnostics).edits.Pairwise fun before after => before.span.stop ≤ after.span.start := by
  rw [collect, List.pairwise_map, List.pairwise_filter]
  apply List.pairwise_iff_getElem.2
  intro i j below below' less keeps keeps'
  set fixes := certain diagnostics with fixesIs
  have first : (sortedOwned fixes)[i]? = some ((sortedOwned fixes).get ⟨i, below⟩) :=
    List.getElem?_eq_getElem below
  have second : (sortedOwned fixes)[j]? = some ((sortedOwned fixes).get ⟨j, below'⟩) :=
    List.getElem?_eq_getElem below'
  have next := List.getElem?_eq_getElem (l := sortedOwned fixes) (i := i + 1)
    (Nat.lt_of_le_of_lt less below')
  have order := sortedBefore_of_le next second less
  by_contra reach
  rcases mem_sortedOwned.1 (List.mem_of_getElem? first) with ⟨fix, found, -⟩
  have decided : (refusals fixes.length (sortedOwned fixes)).getD
      ((sortedOwned fixes).get ⟨i, below⟩).1 false = true ↔ _ :=
    refusals_iff (List.getElem?_eq_some_iff.1 found).1
  have refused := decided.2
    ⟨i, _, first, rfl, clashes_iff.2 ⟨i, _, _, first, next, by
      unfold SortedBefore at order
      change ¬ ((sortedOwned fixes).get ⟨i, below⟩).2.span.stop ≤
        ((sortedOwned fixes).get ⟨j, below'⟩).2.span.start at reach
      omega, .inl rfl⟩⟩
  change (!(refusals fixes.length (sortedOwned fixes)).getD _ false) = true at keeps
  rw [Bool.not_eq_true'] at keeps
  exact absurd (keeps.symm.trans refused) Bool.false_ne_true

/-! ## What becomes of the text -/

/-- From a position on, a text becomes another: each edit puts its replacement where its span
was, and what lies between the spans stays. -/
inductive Replaced : Nat → List Char → List SuggestedEdit → List Char → Prop
  | done {position : Nat} {text : List Char} : Replaced position text [] text
  | edit {position : Nat} {gap old text out : List Char} {edit : SuggestedEdit}
      {edits : List SuggestedEdit} :
      edit.span.start = position + bytes gap → edit.span.stop = edit.span.start + bytes old →
        Replaced edit.span.stop text edits out →
          Replaced position (gap ++ (old ++ text)) (edit :: edits)
            (gap ++ (edit.replacement ++ out))

/-- Every span is a range of the text on character boundaries. -/
def Ranges (source : List Char) (diagnostics : List Diagnostic) : Prop :=
  ∀ fix ∈ certain diagnostics, ∀ edit ∈ fix.edits, edit.span.start ≤ edit.span.stop ∧
    isCharBoundary source edit.span.start ∧ isCharBoundary source edit.span.stop

instance (source : List Char) (diagnostics : List Diagnostic) :
    Decidable (Ranges source diagnostics) :=
  inferInstanceAs (Decidable (∀ _ ∈ _, _))

theorem takeBytes_eq_some {text front : List Char} {position : Nat}
    (taken : takeBytes text position = some front) :
    ∃ back, text = front ++ back ∧ bytes front = position := by
  induction text generalizing position front with
  | nil =>
      cases position with
      | zero =>
          rw [takeBytes] at taken
          cases Option.some.inj taken
          exact ⟨[], rfl, rfl⟩
      | succ position => exact absurd taken.symm (Option.some_ne_none _)
  | cons one text ih =>
      rcases Nat.eq_zero_or_pos position with rfl | positive
      · rw [takeBytes] at taken
        cases Option.some.inj taken
        exact ⟨one :: text, rfl, rfl⟩
      · rw [takeBytes_cons positive] at taken
        split at taken
        · next fits =>
            rcases Option.map_eq_some_iff.1 taken with ⟨rest, further, rfl⟩
            rcases ih further with ⟨back, rfl, length⟩
            refine ⟨back, rfl, ?_⟩
            rw [bytes_cons, length, Nat.add_sub_cancel' fits]
        · exact absurd taken.symm (Option.some_ne_none _)

theorem exists_of_boundary {text : List Char} {position : Nat}
    (boundary : isCharBoundary text position = true) :
    ∃ front back, text = front ++ back ∧ bytes front = position := by
  rcases Option.isSome_iff_exists.1 boundary with ⟨front, taken⟩
  rcases takeBytes_eq_some taken with ⟨back, whole, length⟩
  exact ⟨front, back, whole, length⟩

theorem eq_nil_of_bytes {text : List Char} (none : bytes text = 0) : text = [] := by
  cases text with
  | nil => rfl
  | cons one text =>
      rw [bytes_cons] at none
      have := one.utf8Size_pos
      omega

/-- Of two fronts of a text the one with fewer bytes is the front of the other. -/
theorem exists_gap {front back before after : List Char} (same : front ++ back = before ++ after)
    (order : bytes front ≤ bytes before) : ∃ gap, before = front ++ gap ∧ back = gap ++ after := by
  rcases List.append_eq_append_iff.1 same with ⟨gap, rfl, rfl⟩ | ⟨gap, rfl, rfl⟩
  · exact ⟨gap, rfl, rfl⟩
  · rw [bytes_append] at order
    cases (eq_nil_of_bytes (by omega) : gap = [])
    exact ⟨[], by rw [List.append_nil, List.append_nil], rfl⟩

variable {source : List Char}

theorem exists_replaced {edits : List SuggestedEdit}
    (apart : edits.Pairwise fun before after => before.span.stop ≤ after.span.start)
    (ranges : ∀ edit ∈ edits, edit.span.start ≤ edit.span.stop ∧
      isCharBoundary source edit.span.start ∧ isCharBoundary source edit.span.stop)
    (front text : List Char) (whole : source = front ++ text)
    (later : ∀ edit ∈ edits, bytes front ≤ edit.span.start) :
    ∃ out, Replaced (bytes front) text edits out := by
  induction edits generalizing front text with
  | nil => exact ⟨text, .done⟩
  | cons edit edits ih =>
      rcases ranges edit List.mem_cons_self with ⟨forward, starts, stops⟩
      rcases exists_of_boundary starts with ⟨before, after, split, start⟩
      rcases exists_of_boundary stops with ⟨through, rest, split', stop⟩
      rw [List.pairwise_cons] at apart
      rcases exists_gap (whole.symm.trans split)
        (by rw [start]; exact later edit List.mem_cons_self) with ⟨gap, rfl, rfl⟩
      rcases exists_gap (split.symm.trans split') (by omega) with ⟨old, rfl, rfl⟩
      rcases ih apart.2 (fun other member => ranges other (List.mem_cons_of_mem _ member)) _ _ split'
        (fun other member => by rw [stop]; exact apart.1 other member) with ⟨out, replaced⟩
      rw [stop] at replaced
      rw [bytes_append] at start stop
      refine ⟨_, .edit start.symm ?_ replaced⟩
      rw [bytes_append] at stop
      omega

/-- The edits from the last on leave the front of the text alone. -/
theorem foldr_eq_of_replaced {edits : List SuggestedEdit} {text out : List Char} {position : Nat}
    (replaced : Replaced position text edits out) (front : List Char)
    (place : bytes front = position) :
    edits.foldr (fun edit out => applyEdit out edit) (front ++ text) = front ++ out := by
  induction replaced generalizing front with
  | done => rfl
  | @edit position gap old text out edit edits starts stops _ ih =>
      have next := ih (front ++ gap ++ old) (by
        rw [bytes_append, bytes_append, place, stops, starts])
      rw [List.foldr_cons, ← List.append_assoc, ← List.append_assoc, next]
      have start : edit.span.start = bytes (front ++ gap) := by
        rw [bytes_append, place, starts]
      have stop : edit.span.stop = bytes (front ++ gap ++ old) := by
        rw [bytes_append, ← start, stops]
      have taken : takeBytes (front ++ gap ++ old ++ out) edit.span.start =
          some (front ++ gap) := by
        rw [start, List.append_assoc (front ++ gap), takeBytes_append]
      have ends : isCharBoundary (front ++ gap ++ old ++ out) edit.span.stop = true := by
        rw [stop, isCharBoundary, takeBytes_append]
        rfl
      have begins : isCharBoundary (front ++ gap ++ old ++ out) edit.span.start = true := by
        rw [isCharBoundary, taken]
        rfl
      have sound : ¬(edit.span.stop < edit.span.start ∨
          bytes (front ++ gap ++ old ++ out) < edit.span.stop ∨
          (!isCharBoundary (front ++ gap ++ old ++ out) edit.span.start) = true ∨
            (!isCharBoundary (front ++ gap ++ old ++ out) edit.span.stop) = true) := by
        rw [begins, ends, bytes_append _ out, ← stop]
        rintro (backward | beyond | no | no)
        · omega
        · omega
        · exact absurd no Bool.false_ne_true
        · exact absurd no Bool.false_ne_true
      rw [applyEdit, if_neg sound, replaceRange, taken, stop, dropBytes_append]
      simp only [Option.getD_some, List.append_assoc]

theorem apply_eq (source : List Char) (edits : List SuggestedEdit) :
    apply source edits = edits.foldr (fun edit out => applyEdit out edit) source :=
  List.foldl_reverse

/-! ## The order of the diagnostics -/

/-- The points at which the fixes insert. -/
def insertions (fixes : List Fix) : List Nat :=
  ((fixes.flatMap Fix.edits).filter fun edit => edit.span.start = edit.span.stop).map
    fun edit => edit.span.start

/-- Wherever several fixes insert at a point that the edit sorted before it reaches beyond, they
have the same edits, or each of them is refused in any case: for another edit, or for another
such point, at which nobody inserts who has other edits. -/
def Unambiguous (fixes : List Fix) : Prop :=
  Settled (Overlapped (spans fixes)) (InsertsWithin (spans fixes))
    (fun fix => (fix.edits : Multiset SuggestedEdit)) fixes

/-- What fixing a text with some diagnostics is to do. -/
structure Repaired (source : List Char) (diagnostics : List Diagnostic) : Prop where
  apart : (collect diagnostics).edits.Pairwise fun before after =>
    before.span.stop ≤ after.span.start
  whole : ∃ kept : List Fix, kept.Sublist (certain diagnostics) ∧
    (collect diagnostics).edits.Perm (kept.flatMap Fix.edits) ∧
      (collect diagnostics).fixes = kept.length
  inPlace : Replaced 0 source (collect diagnostics).edits
    (apply source (collect diagnostics).edits)
  anyOrder : ∀ reordered, diagnostics.Perm reordered →
    (collect diagnostics).edits.Perm (collect reordered).edits
  oneText : (insertions (certain diagnostics)).Nodup → ∀ reordered, diagnostics.Perm reordered →
    apply source (collect diagnostics).edits = apply source (collect reordered).edits

theorem certain_perm (perm : diagnostics.Perm reordered) :
    (certain diagnostics).Perm (certain reordered) :=
  (perm.filterMap _).filter _

theorem mem_certain {fix : Fix} (member : fix ∈ certain diagnostics) :
    fix.applicability = .machineApplicable :=
  of_decide_eq_true (List.mem_filter.1 member).2

theorem certain_append (diagnostics reordered : List Diagnostic) :
    certain (diagnostics ++ reordered) = certain diagnostics ++ certain reordered := by
  rw [certain, List.filterMap_append, List.filter_append]
  rfl

theorem certain_map (sure : ∀ fix ∈ fixes, fix.applicability = .machineApplicable) :
    certain (fixes.map fun fix => ⟨some fix⟩) = fixes := by
  rw [certain, List.filterMap_map]
  have all : fixes.filterMap (Diagnostic.fix ∘ fun fix => ⟨some fix⟩) = fixes :=
    List.filterMap_some
  rw [all]
  exact List.filter_eq_self.2 fun fix member => decide_eq_true (sure fix member)

/-- The diagnostics that carry a fix to apply, and the others behind them. -/
theorem exists_others (diagnostics : List Diagnostic) : ∃ others, certain others = [] ∧
    diagnostics.Perm ((certain diagnostics).map (fun fix => ⟨some fix⟩) ++ others) := by
  induction diagnostics with
  | nil => exact ⟨[], rfl, .nil⟩
  | cons diagnostic diagnostics ih =>
      rcases ih with ⟨others, none, perm⟩
      have split := certain_append [diagnostic] diagnostics
      rw [List.singleton_append] at split
      by_cases carries : certain [diagnostic] = []
      · refine ⟨diagnostic :: others, ?_, ?_⟩
        · rw [← List.singleton_append, certain_append, carries, none]
          rfl
        · rw [split, carries, List.nil_append]
          exact (perm.cons diagnostic).trans List.perm_middle.symm
      · refine ⟨others, none, ?_⟩
        have own : diagnostic :: [] = (certain [diagnostic]).map fun fix => ⟨some fix⟩ := by
          rcases diagnostic with ⟨_ | ⟨edits, _ | _⟩⟩
          · exact absurd rfl carries
          · rfl
          · exact absurd rfl carries
        rw [split, List.map_append, ← own]
        exact perm.cons diagnostic

/-- Every order of the fixes is one of the diagnostics. -/
theorem exists_reordered (perm : (certain diagnostics).Perm fixes) :
    ∃ reordered, diagnostics.Perm reordered ∧ certain reordered = fixes := by
  rcases exists_others diagnostics with ⟨others, none, order⟩
  refine ⟨fixes.map (fun fix => ⟨some fix⟩) ++ others,
    order.trans ((perm.map _).append_right _), ?_⟩
  rw [certain_append, none, List.append_nil]
  exact certain_map fun fix member => mem_certain (perm.mem_iff.2 member)

theorem forward_of_perm {fixes' : List Fix} (perm : fixes.Perm fixes') (forward : Forward fixes) :
    Forward fixes' :=
  fun fix member => forward fix (perm.mem_iff.2 member)

theorem coe_flatMap (fixes : List Fix) : ((fixes.flatMap Fix.edits : List SuggestedEdit) :
    Multiset SuggestedEdit) = (fixes.map fun fix => (fix.edits : Multiset SuggestedEdit)).sum := by
  induction fixes with
  | nil => rfl
  | cons fix fixes ih =>
      rw [List.flatMap_cons, ← Multiset.coe_add, ih, List.map_cons, List.sum_cons]

/-- The edits that are kept in any order, in the terms of the spans in this one. -/
theorem coe_collect {fixes : List Fix} (perm : fixes.Perm (certain reordered))
    (forward : Forward fixes) : ((collect reordered).edits : Multiset SuggestedEdit) =
      leftOver (Overlapped (spans fixes)) (InsertsWithin (spans fixes))
        (fun fix => (fix.edits : Multiset SuggestedEdit)) [] (certain reordered) := by
  rw [Multiset.coe_eq_coe.2 (collect_perm (forward_of_perm perm forward)), coe_flatMap, kept,
    spans_perm perm]
  rfl

theorem anyOrder_iff (forward : Forward (certain diagnostics)) :
    (∀ reordered, diagnostics.Perm reordered →
      (collect diagnostics).edits.Perm (collect reordered).edits) ↔
      Unambiguous (certain diagnostics) := by
  have among : ∀ {one other : Fix}, (one.edits : Multiset SuggestedEdit) = other.edits →
      ∀ edit ∈ one.edits, edit ∈ other.edits :=
    fun same edit member => (Multiset.coe_eq_coe.1 same).mem_iff.1 member
  rw [Unambiguous, ← leftOver_perm_iff]
  · constructor
    · intro same fixes perm
      rcases exists_reordered perm with ⟨reordered, order, rfl⟩
      rw [← coe_collect (List.Perm.refl _) forward, ← coe_collect perm forward]
      exact Multiset.coe_eq_coe.2 (same reordered order)
    · intro same reordered order
      have perm := certain_perm order
      have equal := same _ perm
      rw [← coe_collect (List.Perm.refl _) forward, ← coe_collect perm forward] at equal
      exact Multiset.coe_eq_coe.1 equal
  · rintro one other same ⟨edit, member, full, crosses⟩
    exact ⟨edit, among same edit member, full, crosses⟩
  · rintro one other span same ⟨empty, crosses, edit, member, place⟩
    exact ⟨empty, crosses, edit, among same edit member, place⟩
  · rintro fix span ⟨-, -, edit, member, -⟩ none
    rw [Multiset.coe_eq_zero] at none
    rw [none] at member
    exact absurd member List.not_mem_nil

/-- Where no two insertions share a point, who inserts at one is one fix. -/
theorem unambiguous_of_nodup (distinct : (insertions fixes).Nodup) : Unambiguous fixes := by
  intro span
  refine .inl ?_
  rintro one mine other member ⟨empty, -, edit, inside, rfl⟩ ⟨-, -, edit', inside', same⟩
  rw [insertions, List.filter_flatMap, List.map_flatMap] at distinct
  have symm : ∀ points : Fix → List Nat, Std.Symm (Function.onFun List.Disjoint points) :=
    fun _ => ⟨fun _ _ => List.Disjoint.symm⟩
  have apart := (List.nodup_flatMap.1 distinct).2
  by_contra differs
  have different : one ≠ other := by
    intro equal
    rw [equal] at differs
    exact differs rfl
  have := symm fun fix =>
    (fix.edits.filter fun edit => edit.span.start = edit.span.stop).map fun edit => edit.span.start
  have disjoint := apart.forall mine member different
  apply disjoint (a := edit.span.start)
  · exact List.mem_map.2 ⟨edit, List.mem_filter.2 ⟨inside, decide_eq_true empty⟩, rfl⟩
  · refine List.mem_map.2 ⟨edit', List.mem_filter.2 ⟨inside', ?_⟩, ?_⟩
    · rw [same]
      exact decide_eq_true empty
    · rw [same]

theorem mem_collect {edit : SuggestedEdit} (member : edit ∈ (collect diagnostics).edits) :
    ∃ fix ∈ certain diagnostics, edit ∈ fix.edits := by
  rw [collect] at member
  rcases List.mem_map.1 member with ⟨⟨owner, edit⟩, among, rfl⟩
  rcases mem_sortedOwned.1 (List.mem_filter.1 among).1 with ⟨fix, found, inside⟩
  exact ⟨fix, List.mem_of_getElem? found, inside⟩

/-- Edits that are kept in any order are kept in the order of their spans, which is the only one
where no two insertions share a point. -/
theorem collect_eq (forward : Forward (certain diagnostics))
    (distinct : (insertions (certain diagnostics)).Nodup) (order : diagnostics.Perm reordered) :
    (collect diagnostics).edits = (collect reordered).edits := by
  have perm := (anyOrder_iff forward).2 (unambiguous_of_nodup distinct) reordered order
  have sorted := collect_apart diagnostics
  have sorted' := collect_apart reordered
  have runs : ∀ edit ∈ (collect diagnostics).edits, edit.span.start ≤ edit.span.stop := by
    intro edit member
    rcases mem_collect member with ⟨fix, among, inside⟩
    exact forward fix among edit inside
  refine List.Perm.eq_of_pairwise ?_ sorted sorted' perm
  intro one other mine member before after
  have member := perm.mem_iff.2 member
  have forth := runs one mine
  have forth' := runs other member
  -- Two edits at one place insert there.
  have place : one.span.start = other.span.start := by omega
  have insert_ : ∀ edit ∈ (collect diagnostics).edits, edit.span.start = edit.span.stop →
      edit ∈ ((certain diagnostics).flatMap Fix.edits).filter
        fun edit => edit.span.start = edit.span.stop := by
    intro edit member empty
    rcases mem_collect member with ⟨fix, among, inside⟩
    exact List.mem_filter.2 ⟨List.mem_flatMap.2 ⟨fix, among, inside⟩, decide_eq_true empty⟩
  exact List.inj_on_of_nodup_map distinct (insert_ one mine (by omega))
    (insert_ other member (by omega)) place

theorem forward_of_ranges (ranges : Ranges source diagnostics) : Forward (certain diagnostics) :=
  fun fix member edit inside => (ranges fix member edit inside).1

/-- Fixing does what it is to do exactly where nothing turns on which of several insertions at
one point comes first. -/
theorem repaired_iff (ranges : Ranges source diagnostics) :
    Repaired source diagnostics ↔ Unambiguous (certain diagnostics) := by
  have forward := forward_of_ranges ranges
  constructor
  · intro repaired
    exact (anyOrder_iff forward).1 repaired.anyOrder
  · intro settled
    refine ⟨collect_apart diagnostics, ⟨_, kept_sublist _, collect_perm forward,
      collect_fixes forward⟩, ?_, (anyOrder_iff forward).2 settled, ?_⟩
    · have each : ∀ edit ∈ (collect diagnostics).edits, edit.span.start ≤ edit.span.stop ∧
          isCharBoundary source edit.span.start ∧ isCharBoundary source edit.span.stop := by
        intro edit member
        rcases mem_collect member with ⟨fix, among, inside⟩
        exact ranges fix among edit inside
      rcases exists_replaced (collect_apart diagnostics) each [] source rfl
        (fun edit _ => Nat.zero_le _) with ⟨out, replaced⟩
      have outcome := foldr_eq_of_replaced replaced [] rfl
      rw [List.nil_append, List.nil_append, ← apply_eq] at outcome
      rw [outcome]
      exact replaced
    · intro distinct reordered order
      rw [collect_eq forward distinct order]

/-! ### Two insertions within a replacement -/

/-- A fix that makes one edit. -/
def single (start stop : Nat) (replacement : String) : Diagnostic :=
  ⟨some ⟨[⟨⟨start, stop⟩, replacement.toList⟩], .machineApplicable⟩⟩

theorem repaired_words : Repaired "one two".toList [single 0 3 "1", single 4 7 "2"] := by
  apply (repaired_iff (by decide)).2
  apply unambiguous_of_nodup
  decide

/-- Of two insertions at one point within a replacement the first is refused with the replacement
and the other is kept, so that the order of the two decides. -/
theorem collect_order :
    Ranges "one two".toList [single 0 3 "1", single 1 1 "a", single 1 1 "b"] ∧
    [single 0 3 "1", single 1 1 "a", single 1 1 "b"].Perm
      [single 0 3 "1", single 1 1 "b", single 1 1 "a"] ∧
    (collect [single 0 3 "1", single 1 1 "a", single 1 1 "b"]).edits = [⟨⟨1, 1⟩, ['b']⟩] ∧
    (collect [single 0 3 "1", single 1 1 "b", single 1 1 "a"]).edits = [⟨⟨1, 1⟩, ['a']⟩] ∧
    ¬Repaired "one two".toList [single 0 3 "1", single 1 1 "a", single 1 1 "b"] := by
  have order : [single 0 3 "1", single 1 1 "a", single 1 1 "b"].Perm
      [single 0 3 "1", single 1 1 "b", single 1 1 "a"] := (List.Perm.swap ..).cons _
  refine ⟨by decide, order, by decide, by decide, ?_⟩
  intro repaired
  have same := repaired.anyOrder _ order
  revert same
  decide

end Deed.Driver.Fixing
