import Deed.Library.Assoc

/-!
# Entries in the order of their keys

Sorting some entries by their keys, those of one key in the order they came in.  Only the
keys decide where an entry goes, so entries that are related before they are sorted are
related after.
-/

namespace Deed.Library

variable {κ α β : Type*} [LT κ] [DecidableLT κ]

/-- Some entries in the order of their keys. -/
def sorted (entries : List (κ × α)) : List (κ × α) :=
  entries.foldl (fun placed entry => Assoc.place entry.1 entry.2 placed) []

/-- Two entries of one key whose values are related. -/
def Paired (related : α → β → Prop) (left : κ × α) (right : κ × β) : Prop :=
  left.1 = right.1 ∧ related left.2 right.2

variable {related : α → β → Prop}

theorem place_paired {key : κ} {value : α} {other : β} {lefts : List (κ × α)}
    {rights : List (κ × β)} (alike : related value other)
    (each : List.Forall₂ (Paired related) lefts rights) :
    List.Forall₂ (Paired related) (Assoc.place key value lefts)
      (Assoc.place key other rights) := by
  induction each with
  | nil => exact List.Forall₂.cons ⟨rfl, alike⟩ List.Forall₂.nil
  | @cons left right lefts rights pair rest ih =>
      rcases left with ⟨first, held⟩
      rcases right with ⟨second, held'⟩
      cases pair.1
      rw [Assoc.place, Assoc.place]
      split
      · exact List.Forall₂.cons ⟨rfl, alike⟩ (List.Forall₂.cons pair rest)
      · exact List.Forall₂.cons pair ih

theorem sorted_paired {lefts : List (κ × α)} {rights : List (κ × β)}
    (each : List.Forall₂ (Paired related) lefts rights) :
    List.Forall₂ (Paired related) (sorted lefts) (sorted rights) := by
  have placed : ∀ (before : List (κ × α)) (before' : List (κ × β)),
      List.Forall₂ (Paired related) before before' →
      List.Forall₂ (Paired related)
        (lefts.foldl (fun placed entry => Assoc.place entry.1 entry.2 placed) before)
        (rights.foldl (fun placed entry => Assoc.place entry.1 entry.2 placed) before') := by
    induction each with
    | nil => exact fun _ _ same => same
    | @cons left right lefts rights pair rest ih =>
        intro before before' same
        rw [List.foldl_cons, List.foldl_cons]
        apply ih
        rw [pair.1]
        exact place_paired pair.2 same
  exact placed [] [] List.Forall₂.nil

theorem sorted_perm (entries : List (κ × α)) : (sorted entries).Perm entries := by
  have whole : ∀ before : List (κ × α),
      (entries.foldl (fun placed entry => Assoc.place entry.1 entry.2 placed)
        before).Perm (before ++ entries) := by
    induction entries with
    | nil =>
        intro before
        rw [List.append_nil]
        exact List.Perm.refl before
    | cons entry entries ih =>
        intro before
        have placed := (Assoc.place_perm entry.1 entry.2 before).append_right entries
        exact ((ih _).trans placed).trans List.perm_middle.symm
  exact whole []

section Insertion

variable {before : α → α → Prop} [DecidableRel before] {came : α → α → Prop}

/-- Inserting an element that came first keeps ties in the order they came in. -/
theorem pairwise_orderedInsert_stable (trans : ∀ a b c, before a b → before b c → before a c)
    (total : ∀ a b, before a b ∨ before b a) {element : α} {list : List α}
    (sorted : list.Pairwise fun a b => before a b ∧ (before b a → came a b))
    (first : ∀ other ∈ list, came element other) :
    (list.orderedInsert before element).Pairwise
      fun a b => before a b ∧ (before b a → came a b) := by
  induction list with
  | nil => exact List.pairwise_singleton _ _
  | cons head rest ih =>
      rw [List.pairwise_cons] at sorted
      rw [List.orderedInsert_cons]
      by_cases here : before element head
      · rw [if_pos here]
        refine List.pairwise_cons.2 ⟨?_, List.pairwise_cons.2 sorted⟩
        intro other member
        refine ⟨?_, fun _ => first other member⟩
        rcases List.mem_cons.1 member with rfl | member
        · exact here
        · exact trans _ _ _ here (sorted.1 other member).1
      · rw [if_neg here]
        have later := ih sorted.2 fun other member => first other (List.mem_cons_of_mem _ member)
        refine List.pairwise_cons.2 ⟨?_, later⟩
        intro other member
        rcases (List.mem_orderedInsert _).1 member with rfl | member
        · exact ⟨(total _ _).resolve_left here, fun back => absurd back here⟩
        · exact sorted.1 other member

theorem pairwise_insertionSort_stable (before : α → α → Prop) [DecidableRel before]
    (trans : ∀ a b c, before a b → before b c → before a c)
    (total : ∀ a b, before a b ∨ before b a) {list : List α} (order : list.Pairwise came) :
    (list.insertionSort before).Pairwise fun a b => before a b ∧ (before b a → came a b) := by
  induction list with
  | nil => exact List.Pairwise.nil
  | cons head rest ih =>
      rw [List.pairwise_cons] at order
      rw [List.insertionSort_cons]
      apply pairwise_orderedInsert_stable trans total (ih order.2)
      intro other member
      exact order.1 other ((List.mem_insertionSort _).1 member)

end Insertion

end Deed.Library
