import Mathlib

/-!
# Worklists

The closure of some elements under a step that answers finitely many: what is found is
kept in the order it was found in, and what is still to be looked at is a stack.  The
loop takes a number of turns; where everything it can reach is one finite set, there is a
number that is enough.
-/

namespace Deed.Library

variable {α : Type} [DecidableEq α]

/-- What is still to be looked at, the last first, and what was found. -/
structure Worklist (α : Type) where
  pending : List α
  found : List α

namespace Worklist

/-- Notes an element that was not found before. -/
def note (work : Worklist α) (element : α) : Worklist α :=
  if element ∈ work.found then work
  else ⟨element :: work.pending, work.found ++ [element]⟩

/-- Notes several elements, one after the other. -/
def noteAll (work : Worklist α) (elements : List α) : Worklist α := elements.foldl note work

/-- Looks at what is pending until nothing is, or until the turns run out. -/
def close (next : α → List α) : Nat → Worklist α → Option (List α)
  | 0, _ => none
  | _ + 1, ⟨[], found⟩ => some found
  | turns + 1, ⟨element :: pending, found⟩ =>
      close next turns (noteAll ⟨pending, found⟩ (next element))

/-- Some elements, all of which are still to be looked at. -/
def start (elements : List α) : Worklist α := ⟨elements.reverse, elements⟩

variable {work : Worklist α} {element : α} {elements : List α}

theorem noteAll_cons : work.noteAll (element :: elements) =
    (work.note element).noteAll elements := rfl

theorem mem_note {other : α} :
    other ∈ (work.note element).found ↔ other ∈ work.found ∨ other = element := by
  rw [note]
  split
  · next present =>
      constructor
      · exact Or.inl
      · rintro (old | rfl)
        · exact old
        · exact present
  · rw [List.mem_append, List.mem_singleton]

theorem mem_noteAll {other : α} :
    other ∈ (work.noteAll elements).found ↔ other ∈ work.found ∨ other ∈ elements := by
  induction elements generalizing work with
  | nil => simp [noteAll]
  | cons first rest ih => rw [noteAll_cons, ih, mem_note, List.mem_cons, or_assoc]

/-- What is pending stays pending, and what is newly found is pending. -/
theorem pending_noteAll {other : α} :
    other ∈ (work.noteAll elements).pending ↔
      other ∈ work.pending ∨ (other ∈ elements ∧ other ∉ work.found) := by
  induction elements generalizing work with
  | nil => simp [noteAll]
  | cons first rest ih =>
      rw [noteAll_cons, ih, mem_note, note]
      split
      · next present =>
          constructor
          · rintro (old | ⟨later, fresh⟩)
            · exact Or.inl old
            · exact Or.inr ⟨List.mem_cons_of_mem _ later, fun old => fresh (Or.inl old)⟩
          · rintro (old | ⟨listed, fresh⟩)
            · exact Or.inl old
            · rcases List.mem_cons.1 listed with rfl | later
              · exact absurd present fresh
              · refine Or.inr ⟨later, ?_⟩
                rintro (old | rfl)
                · exact fresh old
                · exact fresh present
      · next absent =>
          rw [List.mem_cons]
          constructor
          · rintro ((rfl | old) | ⟨later, fresh⟩)
            · exact Or.inr ⟨List.mem_cons_self, absent⟩
            · exact Or.inl old
            · exact Or.inr ⟨List.mem_cons_of_mem _ later, fun old => fresh (Or.inl old)⟩
          · rintro (old | ⟨listed, fresh⟩)
            · exact Or.inl (Or.inr old)
            · by_cases same : other = first
              · exact Or.inl (Or.inl same)
              · refine Or.inr ⟨List.mem_of_ne_of_mem same listed, ?_⟩
                rintro (old | alike)
                · exact fresh old
                · exact same alike

/-- Everything found is still to be looked at, or what it leads to was found. -/
def Pursued (next : α → List α) (work : Worklist α) : Prop :=
  ∀ element ∈ work.found, element ∈ work.pending ∨ ∀ other ∈ next element, other ∈ work.found

variable {next : α → List α}

theorem Pursued.start (elements : List α) : Pursued next (start elements) := by
  intro element found
  exact Or.inl (List.mem_reverse.2 found)

theorem Pursued.turn {pending found : List α}
    (pursued : Pursued next ⟨element :: pending, found⟩) :
    Pursued next (noteAll ⟨pending, found⟩ (next element)) := by
  intro other present
  rcases mem_noteAll.1 present with old | fresh
  · rcases pursued other old with waiting | done
    · rcases List.mem_cons.1 waiting with rfl | waiting
      · exact Or.inr fun another leads => mem_noteAll.2 (Or.inr leads)
      · exact Or.inl (pending_noteAll.2 (Or.inl waiting))
    · exact Or.inr fun another leads => mem_noteAll.2 (Or.inl (done another leads))
  · by_cases old : other ∈ found
    · rcases pursued other old with waiting | done
      · rcases List.mem_cons.1 waiting with rfl | waiting
        · exact Or.inr fun another leads => mem_noteAll.2 (Or.inr leads)
        · exact Or.inl (pending_noteAll.2 (Or.inl waiting))
      · exact Or.inr fun another leads => mem_noteAll.2 (Or.inl (done another leads))
    · exact Or.inl (pending_noteAll.2 (Or.inr ⟨fresh, old⟩))

/-- What the loop answers holds what it started with, and all that this leads to. -/
theorem close_closed {turns : Nat} {closed : List α} (pursued : Pursued next work)
    (answers : close next turns work = some closed) :
    (∀ element ∈ work.found, element ∈ closed) ∧
      ∀ element ∈ closed, ∀ other ∈ next element, other ∈ closed := by
  induction turns generalizing work with
  | zero => exact absurd answers.symm (Option.some_ne_none closed)
  | succ turns ih =>
      rcases work with ⟨_ | ⟨first, pending⟩, found⟩
      · cases answers
        refine ⟨fun _ => id, ?_⟩
        intro element present
        rcases pursued element present with waiting | done
        · exact absurd waiting List.not_mem_nil
        · exact done
      · rcases ih pursued.turn answers with ⟨kept, whole⟩
        refine ⟨fun element present => ?_, whole⟩
        exact kept element (mem_noteAll.2 (Or.inl present))

/-- What the loop answers is what it started with and what this leads to, and nothing else. -/
theorem close_least {turns : Nat} {closed : List α} {holds : α → Prop}
    (leads : ∀ element, holds element → ∀ other ∈ next element, holds other)
    (found : ∀ element ∈ work.found, holds element)
    (pending : ∀ element ∈ work.pending, holds element)
    (answers : close next turns work = some closed) : ∀ element ∈ closed, holds element := by
  induction turns generalizing work with
  | zero => exact absurd answers.symm (Option.some_ne_none closed)
  | succ turns ih =>
      rcases work with ⟨_ | ⟨first, waiting⟩, before⟩
      · cases answers
        exact found
      · have next_ := leads first (pending first List.mem_cons_self)
        apply ih _ _ answers
        · intro element present
          rcases mem_noteAll.1 present with old | fresh
          · exact found element old
          · exact next_ element fresh
        · intro element present
          rcases pending_noteAll.1 present with old | ⟨fresh, -⟩
          · exact pending element (List.mem_cons_of_mem _ old)
          · exact next_ element fresh

section Ends

variable (bound : Finset α)

/-- How many turns are left at most, where nothing outside a finite set is met. -/
def left (work : Worklist α) : Nat :=
  (bound \ work.found.toFinset).card + work.pending.length

variable {bound}

theorem left_note (inside : element ∈ bound) :
    (work.note element).left bound = work.left bound := by
  rw [note]
  split
  · rfl
  · next absent =>
      have smaller : bound \ (work.found ++ [element]).toFinset =
          (bound \ work.found.toFinset).erase element := by
        ext other
        simp only [Finset.mem_sdiff, List.mem_toFinset, List.mem_append, List.mem_singleton,
          Finset.mem_erase]
        tauto
      have present : element ∈ bound \ work.found.toFinset :=
        Finset.mem_sdiff.2 ⟨inside, fun found => absent (List.mem_toFinset.1 found)⟩
      have some_ := Finset.card_pos.2 ⟨element, present⟩
      rw [left, left, smaller, Finset.card_erase_of_mem present, List.length_cons]
      omega

theorem left_noteAll (inside : ∀ element ∈ elements, element ∈ bound) :
    (work.noteAll elements).left bound = work.left bound := by
  induction elements generalizing work with
  | nil => rfl
  | cons first rest ih =>
      rw [noteAll_cons, ih fun element present => inside element (List.mem_cons_of_mem _ present),
        left_note (inside first List.mem_cons_self)]

/-- Where nothing outside a finite set is met, the loop ends. -/
theorem close_ends (bound : Finset α) {turns : Nat}
    (closed : ∀ element ∈ bound, ∀ other ∈ next element, other ∈ bound)
    (inside : ∀ element ∈ work.pending, element ∈ bound)
    (enough : work.left bound < turns) :
    ∃ answer, close next turns work = some answer := by
  induction turns generalizing work with
  | zero => exact absurd enough (Nat.not_lt_zero _)
  | succ turns ih =>
      rcases work with ⟨_ | ⟨first, pending⟩, found⟩
      · exact ⟨found, rfl⟩
      · have leads := closed first (inside first List.mem_cons_self)
        apply ih
        · intro element waiting
          rcases pending_noteAll.1 waiting with old | ⟨fresh, -⟩
          · exact inside element (List.mem_cons_of_mem _ old)
          · exact leads element fresh
        · rw [left_noteAll leads]
          exact Nat.lt_of_succ_lt_succ enough

end Ends

end Worklist

end Deed.Library
