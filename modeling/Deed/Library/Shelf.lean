import Mathlib

/-!
# Files under names

A directory as several writers share it: a name stands for a file, a file that is open stays
the same one whatever its name does, and each writer puts its bytes where it has got to.
-/

namespace Deed.Library

/-- A directory and the contents of the files that were ever made in it. -/
structure Shelf (Name Byte : Type) where
  names : Name → Option Nat
  contents : Nat → List Byte
  /-- How many files were made: their numbers are the ones below it. -/
  made : Nat

variable {Name Byte : Type} [DecidableEq Name]

/-- A directory with nothing in it. -/
def Shelf.bare : Shelf Name Byte := ⟨fun _ => none, fun _ => [], 0⟩

/-- Opens a name for writing: the file there is emptied, or a new one is made. -/
def Shelf.create (shelf : Shelf Name Byte) (name : Name) : Nat × Shelf Name Byte :=
  match shelf.names name with
  | some file => (file, { shelf with contents := Function.update shelf.contents file [] })
  | none =>
      (shelf.made,
        { names := Function.update shelf.names name (some shelf.made)
          contents := Function.update shelf.contents shelf.made []
          made := shelf.made + 1 })

/-- Bytes put at an offset; a gap before them is filled. -/
def overwritten (filler : Byte) (contents : List Byte) (offset : Nat) (bytes : List Byte) :
    List Byte :=
  contents.take offset ++ List.replicate (offset - contents.length) filler ++ bytes ++
    contents.drop (offset + bytes.length)

def Shelf.write (filler : Byte) (shelf : Shelf Name Byte) (file offset : Nat)
    (bytes : List Byte) : Shelf Name Byte :=
  { shelf with
    contents := Function.update shelf.contents file
      (overwritten filler (shelf.contents file) offset bytes) }

/-- Gives a file another name, in place of whatever had that one. -/
def Shelf.rename (shelf : Shelf Name Byte) (source target : Name) : Option (Shelf Name Byte) :=
  (shelf.names source).map fun file =>
    { shelf with
      names := Function.update (Function.update shelf.names source none) target (some file) }

/-! ## What was written -/

/-- The contents are no longer than what is meant, and agree with it as far as it was
written. -/
def Agrees (meant contents : List Byte) (written : Nat) : Prop :=
  contents.length ≤ meant.length ∧ ∀ place < written, contents[place]? = meant[place]?

theorem agrees_whole {meant contents : List Byte} :
    Agrees meant contents meant.length ↔ contents = meant := by
  constructor
  · rintro ⟨short, same⟩
    apply List.ext_getElem?
    intro place
    by_cases inside : place < meant.length
    · exact same place inside
    · rw [List.getElem?_eq_none (Nat.le_of_not_lt inside),
        List.getElem?_eq_none (short.trans (Nat.le_of_not_lt inside))]
  · rintro rfl
    exact ⟨le_refl _, fun _ _ => rfl⟩

theorem agrees_nil {meant : List Byte} : Agrees meant [] 0 :=
  ⟨Nat.zero_le _, fun _ below => absurd below (Nat.not_lt_zero _)⟩

variable {filler : Byte} {meant contents : List Byte} {offset count written : Nat}

/-- What stands at a place after a piece of what is meant was written. -/
theorem getElem?_overwritten (inside : offset + count ≤ meant.length) (place : Nat) :
    (overwritten filler contents offset ((meant.drop offset).take count))[place]? =
      if place < offset then
        if place < contents.length then contents[place]? else some filler
      else if place < offset + count then meant[place]?
      else contents[place]? := by
  have piece : ((meant.drop offset).take count).length = count := by
    rw [List.length_take, List.length_drop]
    omega
  have first : (contents.take offset ++ List.replicate (offset - contents.length) filler).length =
      offset := by
    rw [List.length_append, List.length_take, List.length_replicate]
    omega
  rw [overwritten, List.append_assoc, List.getElem?_append, first]
  split
  · rename_i before
    rw [List.getElem?_append, List.length_take]
    split
    · rename_i there
      rw [if_pos (by omega), List.getElem?_take_of_lt before]
    · rename_i there
      rw [if_neg (by omega), List.getElem?_replicate, if_pos (by omega)]
  · rename_i after
    rw [List.getElem?_append, piece]
    split
    · rename_i within
      rw [if_pos (by omega), List.getElem?_take_of_lt within, List.getElem?_drop]
      congr 1
      omega
    · rename_i beyond
      rw [if_neg (by omega), List.getElem?_drop]
      congr 1
      omega

theorem length_overwritten_le (inside : offset + count ≤ meant.length)
    (short : contents.length ≤ meant.length) :
    (overwritten filler contents offset ((meant.drop offset).take count)).length ≤
      meant.length := by
  rw [overwritten]
  simp only [List.length_append, List.length_take, List.length_replicate, List.length_drop]
  omega

/-- A piece of what is meant leaves what was written of it. -/
theorem Agrees.write (agrees : Agrees meant contents written) (within : written ≤ meant.length)
    (inside : offset + count ≤ meant.length) :
    Agrees meant (overwritten filler contents offset ((meant.drop offset).take count))
      written := by
  refine ⟨length_overwritten_le inside agrees.1, ?_⟩
  intro place below
  have there : place < contents.length := by
    by_contra outside
    have none := List.getElem?_eq_none (Nat.le_of_not_lt outside)
    rw [agrees.2 place below, List.getElem?_eq_getElem (by omega)] at none
    exact Option.some_ne_none _ none
  rw [getElem?_overwritten inside, if_pos there, agrees.2 place below]
  split
  · rfl
  · split <;> rfl

/-- And where it goes on where that ends, more of it is written. -/
theorem Agrees.extend (agrees : Agrees meant contents written)
    (inside : written + count ≤ meant.length) :
    Agrees meant (overwritten filler contents written ((meant.drop written).take count))
      (written + count) := by
  have kept : Agrees meant
      (overwritten filler contents written ((meant.drop written).take count)) written :=
    agrees.write (by omega) inside
  refine ⟨kept.1, ?_⟩
  intro place below
  by_cases before : place < written
  · exact kept.2 place before
  · rw [getElem?_overwritten inside, if_neg before, if_pos below]

end Deed.Library
