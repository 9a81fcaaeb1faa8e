import Mathlib

/-!
# Binary search

A window over a list that is halved until one place is left, and what the place is where the
list is in two parts: what is at most the key, and what is above it.
-/

namespace Deed.Library

variable {α : Type} [LinearOrder α]

/-- Where a window of a size ends that begins at a base. -/
def window (list : List α) (key : α) (size base : Nat) : Nat :=
  if _many : 1 < size then
    window list key (size - size / 2)
      (if list[base + size / 2]?.any (key < ·) then base else base + size / 2)
  else base
termination_by size
decreasing_by omega

/-- The place of the key, or the one where it would stand. -/
def binarySearch (list : List α) (key : α) : Except Nat Nat :=
  if list.length = 0 then .error 0
  else
    let base := window list key list.length 0
    match list[base]? with
    | none => .error base
    | some found =>
        if found = key then .ok base else .error (base + if found < key then 1 else 0)

variable {front back : List α} {key : α}

/-- The last of what is at most the key stays in the window. -/
theorem window_eq (below : ∀ one ∈ front, one ≤ key) (above : ∀ one ∈ back, key < one)
    {size base : Nat} (first : base < front.length) (last : front.length ≤ base + size)
    (inside : base + size ≤ (front ++ back).length) :
    window (front ++ back) key size base = front.length - 1 := by
  induction size using Nat.strong_induction_on generalizing base with
  | _ size ih =>
      rw [window]
      by_cases many : 1 < size
      · rw [dif_pos many]
        have half : 0 < size / 2 := Nat.div_pos many (by decide)
        have less : size / 2 < size := Nat.div_lt_self (by omega) (by decide)
        by_cases early : base + size / 2 < front.length
        · have kept : ¬((front ++ back)[base + size / 2]?.any (key < ·)) = true := by
            rw [List.getElem?_append_left early, List.getElem?_eq_getElem early]
            simpa using below _ (List.getElem_mem early)
          rw [if_neg kept]
          exact ih _ (by omega) early (by omega) (by omega)
        · have past : (front ++ back)[base + size / 2]?.any (key < ·) = true := by
            rw [List.length_append] at inside
            have there : base + size / 2 - front.length < back.length := by omega
            rw [List.getElem?_append_right (by omega), List.getElem?_eq_getElem there]
            simpa using above _ (List.getElem_mem there)
          rw [if_pos past]
          exact ih _ (by omega) first (by omega) (by omega)
      · rw [dif_neg many]
        omega

/-- The search answers the last place of what is at most the key where the key is there, and
the place behind it where it is not. -/
theorem binarySearch_append (below : ∀ one ∈ front, one ≤ key) (above : ∀ one ∈ back, key < one)
    (some_ : front ≠ []) :
    binarySearch (front ++ back) key =
      if front.getLast some_ = key then .ok (front.length - 1) else .error front.length := by
  have long := List.length_pos_iff.2 some_
  have at_ : window (front ++ back) key (front ++ back).length 0 = front.length - 1 :=
    window_eq below above long (by rw [List.length_append]; omega) (by omega)
  have found : (front ++ back)[front.length - 1]? = some (front.getLast some_) := by
    rw [List.getElem?_append_left (by omega), List.getElem?_eq_getElem (by omega),
      List.getLast_eq_getElem]
  rw [binarySearch, if_neg (by rw [List.length_append]; omega)]
  simp only [at_, found]
  by_cases same : front.getLast some_ = key
  · rw [if_pos same, if_pos same]
  · have less := lt_of_le_of_ne (below _ (List.getLast_mem some_)) same
    rw [if_neg same, if_neg same, if_pos less]
    congr 1
    omega

end Deed.Library
