import Mathlib

/-!
# Tilings

A list laid out in labelled pieces, one after the other.  A piece fits behind the pieces
that come before it; what fits when it is laid is found again wherever the list is cut.
-/

namespace Deed.Library

variable {ι α : Type}

/-- Pieces of a list, each with what it is. -/
abbrev Pieces (ι α : Type) := List (ι × List α)

/-- The list they make. -/
def laid (pieces : Pieces ι α) : List α := pieces.flatMap Prod.snd

@[simp]
theorem laid_nil : laid ([] : Pieces ι α) = [] := rfl

@[simp]
theorem laid_cons (piece : ι × List α) (pieces : Pieces ι α) :
    laid (piece :: pieces) = piece.2 ++ laid pieces := rfl

@[simp]
theorem laid_append (front back : Pieces ι α) : laid (front ++ back) = laid front ++ laid back :=
  List.flatMap_append

/-- An element stands in one of the pieces. -/
theorem laid_split {pieces : Pieces ι α} {before rest : List α} {one : α}
    (cut : laid pieces = before ++ one :: rest) :
    ∃ front label early late back, pieces = front ++ (label, early ++ one :: late) :: back ∧
      before = laid front ++ early := by
  induction pieces generalizing before with
  | nil => exact absurd cut.symm (List.append_ne_nil_of_right_ne_nil _ (List.cons_ne_nil _ _))
  | cons piece pieces ih =>
      rw [laid_cons] at cut
      rcases List.append_eq_append_iff.1 cut with ⟨late, here, later⟩ | ⟨late, here, later⟩
      · rcases ih later with ⟨front, label, early, behind, back, rfl, split⟩
        exact ⟨piece :: front, label, early, behind, back, rfl, by
          rw [laid_cons, List.append_assoc, ← split, here]⟩
      · cases late with
        | nil =>
            rcases @ih [] later.symm with ⟨front, label, early, behind, back, rfl, split⟩
            refine ⟨piece :: front, label, early, behind, back, rfl, ?_⟩
            rw [laid_cons, List.append_assoc, ← split, List.append_nil, here, List.append_nil]
        | cons first late =>
            rw [List.cons_append] at later
            cases later
            refine ⟨[], piece.1, before, late, pieces, ?_, rfl⟩
            rw [List.nil_append, ← here]

/-! ## What comes after a mark -/

section Since

variable (marked : ι → Bool)

/-- What was laid since the last marked piece. -/
def since (pieces : Pieces ι α) : List α :=
  pieces.foldl (fun text piece => if marked piece.1 then [] else text ++ piece.2) []

variable {marked}

theorem since_concat (pieces : Pieces ι α) (piece : ι × List α) :
    since marked (pieces ++ [piece]) =
      if marked piece.1 then [] else since marked pieces ++ piece.2 := by
  rw [since, List.foldl_append]
  rfl

theorem since_append {more : Pieces ι α} (plain : ∀ piece ∈ more, marked piece.1 = false)
    (pieces : Pieces ι α) : since marked (pieces ++ more) = since marked pieces ++ laid more := by
  induction more using List.reverseRecOn with
  | nil => rw [List.append_nil, laid_nil, List.append_nil]
  | append_singleton more piece ih =>
      have last := plain piece (List.mem_append_right _ List.mem_cons_self)
      rw [← List.append_assoc, since_concat, last,
        ih fun other present => plain other (List.mem_append_left _ present), laid_append,
        List.append_assoc]
      simp

/-- It is what is left of the list after that piece. -/
theorem laid_since (pieces : Pieces ι α) :
    (since marked pieces = laid pieces ∧ ∀ piece ∈ pieces, marked piece.1 = false) ∨
      ∃ front piece back, pieces = front ++ piece :: back ∧ marked piece.1 = true ∧
        (∀ other ∈ back, marked other.1 = false) ∧ since marked pieces = laid back := by
  induction pieces using List.reverseRecOn with
  | nil => exact Or.inl ⟨rfl, fun piece absent => absurd absent List.not_mem_nil⟩
  | append_singleton pieces piece ih =>
      rw [since_concat]
      cases mark : marked piece.1 with
      | true =>
          right
          exact ⟨pieces, piece, [], rfl, mark, fun other absent => absurd absent List.not_mem_nil,
            rfl⟩
      | false =>
          rcases ih with ⟨whole, plain⟩ | ⟨front, last, back, rfl, marks, plain, part⟩
          · left
            refine ⟨?_, ?_⟩
            · rw [whole]
              simp
            · intro other present
              rcases List.mem_append.1 present with old | new
              · exact plain other old
              · rw [List.mem_singleton.1 new]
                exact mark
          · right
            refine ⟨front, last, back ++ [piece], by simp, marks, ?_, ?_⟩
            · intro other present
              rcases List.mem_append.1 present with old | new
              · exact plain other old
              · rw [List.mem_singleton.1 new]
                exact mark
            · rw [part]
              simp

end Since

/-! ## Pieces that fit -/

/-- Each piece fits behind the ones that come before it. -/
inductive Placed (fits : Pieces ι α → ι → List α → Prop) : Pieces ι α → Prop where
  | nil : Placed fits []
  | concat {pieces : Pieces ι α} {label : ι} {text : List α} : Placed fits pieces →
      fits pieces label text → Placed fits (pieces ++ [(label, text)])

variable {fits other : Pieces ι α → ι → List α → Prop} {pieces : Pieces ι α}

theorem Placed.mono (placed : Placed fits pieces)
    (weaker : ∀ front label text, fits front label text → other front label text) :
    Placed other pieces := by
  induction placed with
  | nil => exact .nil
  | concat placed there ih => exact .concat ih (weaker _ _ _ there)

theorem Placed.fits_of_split (placed : Placed fits pieces) {front back : Pieces ι α} {label : ι}
    {text : List α} (split : pieces = front ++ (label, text) :: back) :
    fits front label text := by
  induction placed generalizing back with
  | nil => exact absurd split.symm (List.append_ne_nil_of_right_ne_nil _ (List.cons_ne_nil _ _))
  | concat placed there ih =>
      rcases List.eq_nil_or_concat back with rfl | ⟨early, last, rfl⟩
      · rcases List.append_inj' split rfl with ⟨rfl, same⟩
        cases same
        exact there
      · rw [List.concat_eq_append, ← List.cons_append, ← List.append_assoc] at split
        exact ih (List.append_inj' split rfl).1

theorem Placed.of_append (placed : Placed fits pieces) {front back : Pieces ι α}
    (split : pieces = front ++ back) : Placed fits front := by
  induction placed generalizing back with
  | nil =>
      rw [(List.append_eq_nil_iff.1 split.symm).1]
      exact .nil
  | @concat early label text placed there ih =>
      rcases List.eq_nil_or_concat back with rfl | ⟨others, last, rfl⟩
      · rw [List.append_nil] at split
        rw [← split]
        exact .concat placed there
      · rw [List.concat_eq_append, ← List.append_assoc] at split
        exact ih (List.append_inj' split rfl).1

end Deed.Library
