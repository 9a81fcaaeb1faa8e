import Deed.Library.Searching
import Deed.Stdlib.RatioText
import Deed.Stdlib.SlicesSound
import Deed.Stdlib.Strings

/-!
# Searching agrees with slicing

A slice is a piece of the list of characters, and a search finds what some slice is, as long
as there is something to look for: split at nothing, a text is its characters, which says
nothing of where nothing is.
-/

namespace Deed.Stdlib

open Deed.Library (splitOnce splitOnce_eq_some splitOnce_eq_none splitOnce_first infix_iff_drop)

variable {text needle : String}

/-- A text that memory holds, with the two counters that stand before it there. -/
def Held (text : String) : Prop := text.length < 2 ^ 63 - 1

instance (text : String) : Decidable (Held text) :=
  inferInstanceAs (Decidable (_ < _))

theorem toInt_lengthOf (held : Held text) : (lengthOf text).toInt = text.length :=
  Int64.toInt_ofNat_of_lt (show text.length < 2 ^ 63 by unfold Held at held; omega)

theorem clamped_lengthOf (held : Held text) : clamped (lengthOf text) = text.length := by
  rw [clamped, toInt_lengthOf held, Int.toNat_natCast]

/-! ## Slices -/

theorem split_nothing (text : String) : split text "" = text.toList.map Char.toString :=
  if_pos rfl

/-- The characters whose places are between two are a piece of the list. -/
theorem slice_walk {α : Type*} (items kept : List α) (place : Nat) (start stop : Int64)
    (countable : place + items.length < 2 ^ 63) :
    (turnsFrom place items).foldl
        (fun out turn => if turn.2 ≥ start ∧ turn.2 < stop then push out turn.1 else out) kept =
      kept ++ (items.take (clamped stop - place)).drop (clamped start - place) := by
  induction items generalizing place kept with
  | nil => simp [turnsFrom]
  | cons item items ih =>
      rw [List.length_cons] at countable
      have here : (Int64.ofNat place).toInt = place :=
        Int64.toInt_ofNat_of_lt (show place < 2 ^ 63 by omega)
      have low : Int64.ofNat place ≥ start ↔ clamped start ≤ place := by
        rw [ge_iff_le, Int64.le_iff_toInt_le, here, clamped]
        omega
      have high : Int64.ofNat place < stop ↔ place < clamped stop := by
        rw [Int64.lt_iff_toInt_lt, here, clamped]
        omega
      rw [turnsFrom_cons, List.foldl_cons, ih _ _ (by omega)]
      by_cases before : place < clamped stop
      · have rest : clamped stop - place = clamped stop - (place + 1) + 1 := by omega
        rw [rest, List.take_succ_cons]
        by_cases after : clamped start ≤ place
        · rw [if_pos ⟨low.mpr after, high.mpr before⟩, push, Nat.sub_eq_zero_of_le after,
            Nat.sub_eq_zero_of_le (by omega), List.drop_zero, List.drop_zero, List.append_assoc]
          rfl
        · have skip : clamped start - place = clamped start - (place + 1) + 1 := by omega
          rw [if_neg (fun both => after (low.mp both.1)), skip, List.drop_succ_cons]
      · have past : clamped stop - place = 0 := by omega
        have past' : clamped stop - (place + 1) = 0 := by omega
        rw [if_neg (fun both => before (high.mp both.2)), past, past', List.take_zero,
          List.take_zero, List.drop_nil, List.drop_nil]

theorem toList_character (character : Char) : character.toString.toList = [character] :=
  String.toList_singleton character

theorem toList_join_characters (characters : List Char) :
    (join (characters.map Char.toString) "").toList = characters := by
  rw [join, Ratio.toList_joined, List.map_map]
  have single : (String.toList ∘ Char.toString) = fun character => [character] := by
    funext character
    exact toList_character character
  rw [single]
  exact List.flatMap_singleton' characters

/-- What a slice is, whatever its ends are. -/
theorem toList_slice (held : Held text) (start stop : Int64) :
    (slice text start stop).toList =
      (text.toList.take (clamped stop)).drop (clamped start) := by
  have countable : 0 + (split text "").length < 2 ^ 63 := by
    rw [split_nothing, List.length_map, String.length_toList]
    unfold Held at held
    omega
  have walk := slice_walk (split text "") [] 0 start stop countable
  rw [List.nil_append, Nat.sub_zero, Nat.sub_zero, split_nothing, ← List.map_take,
    ← List.map_drop] at walk
  rw [slice, split_nothing]
  exact (congrArg (fun kept => (join kept "").toList) walk).trans (toList_join_characters _)

/-! ## Searches -/

/-- A position where the slice as long as the needle is the needle. -/
def Found (text needle : String) (i : Int64) : Prop :=
  ∃ stop, plus i (lengthOf needle) = some stop ∧ slice text i stop = needle

theorem length_pos (some_ : needle ≠ "") : 0 < needle.toList.length := by
  apply List.length_pos_iff.mpr
  intro empty
  exact some_ (String.toList_inj.mp empty)

/-- A needle that is not empty is found at a position inside the text. -/
theorem found_iff (held : Held text) (small : Held needle) (some_ : needle ≠ "") {i : Int64} :
    Found text needle i ↔
      ∃ place : Nat, i.toInt = place ∧ needle.toList <+: text.toList.drop place := by
  have real := length_pos some_
  rw [String.length_toList] at real
  constructor
  · rintro ⟨stop, ends, same⟩
    have last := checked_eq_some.mp ends
    rw [toInt_lengthOf small] at last
    have piece := (toList_slice held i stop).symm.trans (congrArg String.toList same)
    have count := congrArg List.length piece
    rw [List.length_drop, List.length_take, String.length_toList, String.length_toList] at count
    have inside : 0 ≤ i.toInt := by
      unfold clamped at count
      omega
    obtain ⟨place, here⟩ := Int.eq_ofNat_of_zero_le inside
    have first : clamped i = place := by rw [clamped, here, Int.toNat_natCast]
    have past : clamped stop = place + needle.length := by
      rw [clamped, last, here]
      omega
    refine ⟨place, here, ?_⟩
    rw [first, past, List.drop_take] at piece
    rw [← piece]
    exact List.take_prefix _ _
  · rintro ⟨place, here, begins⟩
    have within := begins.length_le
    rw [List.length_drop, String.length_toList, String.length_toList] at within
    have fits : Wasm.Fits64 (i.toInt + (lengthOf needle).toInt) := by
      rw [here, toInt_lengthOf small]
      unfold Held at held
      unfold Wasm.Fits64
      omega
    obtain ⟨stop, ends⟩ := Option.ne_none_iff_exists'.mp (mt checked_eq_none.mp (not_not.mpr fits))
    have last := checked_eq_some.mp ends
    rw [toInt_lengthOf small, here] at last
    refine ⟨stop, ends, ?_⟩
    have first : clamped i = place := by rw [clamped, here, Int.toNat_natCast]
    have past : clamped stop = place + needle.length := by
      rw [clamped, last]
      omega
    apply String.toList_inj.mp
    rw [toList_slice held, first, past, List.drop_take, Nat.add_sub_cancel_left,
      ← String.length_toList]
    exact (List.prefix_iff_eq_take.mp begins).symm

theorem piecesWithin_ne_nil (separator : List Char) (limit : Nat) (text : List Char) :
    Eval.piecesWithin separator limit text ≠ [] := by
  cases limit with
  | zero => exact List.cons_ne_nil _ _
  | succ limit =>
      cases found : splitOnce separator text with
      | none => rw [Eval.piecesWithin, found]; exact List.cons_ne_nil _ _
      | some halves => rw [Eval.piecesWithin, found]; exact List.cons_ne_nil _ _

theorem length_piecesWithin (separator : List Char) (limit : Nat) (text : List Char) :
    (Eval.piecesWithin separator limit text).length ≤ limit + 1 := by
  induction limit generalizing text with
  | zero => exact le_refl 1
  | succ limit ih =>
      cases found : splitOnce separator text with
      | none =>
          rw [Eval.piecesWithin, found]
          exact Nat.le_add_left 1 (limit + 1)
      | some halves =>
          rw [Eval.piecesWithin, found]
          exact Nat.succ_le_succ (ih halves.2)

/-- What splitting at a needle begins with, and whether it cuts. -/
theorem split_cases (held : Held text) (some_ : needle ≠ "") :
    (splitOnce needle.toList text.toList = none ∧ ¬length (split text needle) > 1) ∨
      ∃ before after, splitOnce needle.toList text.toList = some (before, after) ∧
        length (split text needle) > 1 ∧
          elementAt (split text needle) 0 = .ok (String.ofList before) := by
  have pieces : split text needle =
      (Eval.piecesWithin needle.toList text.length text.toList).map String.ofList :=
    if_neg some_
  cases found : splitOnce needle.toList text.toList with
  | none =>
      left
      have alone : Eval.piecesWithin needle.toList text.length text.toList = [text.toList] := by
        cases text.length with
        | zero => rfl
        | succ limit => rw [Eval.piecesWithin, found]
      have one : ¬Int64.ofNat 1 > 1 := by decide
      rw [pieces, alone]
      exact ⟨rfl, one⟩
  | some halves =>
      right
      have whole := congrArg List.length (splitOnce_eq_some found)
      have real := length_pos some_
      rw [List.length_append, List.length_append, String.length_toList] at whole
      obtain ⟨limit, counted⟩ : ∃ limit, text.length = limit + 1 :=
        ⟨text.length - 1, by omega⟩
      have cut : Eval.piecesWithin needle.toList text.length text.toList =
          halves.1 :: Eval.piecesWithin needle.toList limit halves.2 := by
        rw [counted, Eval.piecesWithin, found]
      have more := List.length_pos_iff.mpr (piecesWithin_ne_nil needle.toList limit halves.2)
      have most := length_piecesWithin needle.toList limit halves.2
      refine ⟨halves.1, halves.2, rfl, ?_, ?_⟩
      · rw [pieces, cut, length, List.length_map, List.length_cons]
        unfold Held at held
        apply Int64.lt_iff_toInt_lt.mpr
        rw [Int64.toInt_ofNat_of_lt (by omega)]
        show (1 : Int) < _
        omega
      · rw [pieces, cut]
        rfl

/-- Where the search says that a needle is, or that it is nowhere. -/
theorem index_cases (held : Held text) (small : Held needle) (some_ : needle ≠ "") :
    (contains text needle = true ∧ Found text needle (indexOf text needle) ∧
        ∀ i, Found text needle i → indexOf text needle ≤ i) ∨
      (contains text needle = false ∧ indexOf text needle = lengthOf text ∧
        ∀ i, ¬Found text needle i) := by
  have real := List.length_pos_iff.mp (length_pos some_)
  rcases split_cases held some_ with ⟨none_, alone⟩ | ⟨before, after, cut, more, head⟩
  · right
    refine ⟨decide_eq_false alone, if_neg alone, ?_⟩
    intro i found
    rcases (found_iff held small some_).mp found with ⟨place, -, begins⟩
    exact (splitOnce_eq_none real).mp none_ (infix_iff_drop.mpr ⟨place, begins⟩)
  · left
    have whole := splitOnce_eq_some cut
    have index : indexOf text needle = Int64.ofNat before.length := by
      rw [indexOf]
      show (if length (split text needle) > 1 then _ else _) = _
      rw [if_pos more, head]
      show lengthOf _ = _
      rw [lengthOf, String.length_ofList]
    have short : before.length < 2 ^ 63 := by
      have count := congrArg List.length whole
      rw [List.length_append, List.length_append, String.length_toList] at count
      unfold Held at held
      omega
    have place : (indexOf text needle).toInt = before.length := by
      rw [index, Int64.toInt_ofNat_of_lt short]
    refine ⟨decide_eq_true more, ?_, ?_⟩
    · refine (found_iff held small some_).mpr ⟨before.length, place, after, ?_⟩
      rw [whole, List.append_assoc, List.drop_left]
    · intro i found
      rcases (found_iff held small some_).mp found with ⟨other, here, begins⟩
      rw [Int64.le_iff_toInt_le, place, here]
      by_contra less
      exact splitOnce_first cut (by omega) begins

/-! ## Trimming -/

/-- Whether a character is one of those that are trimmed. -/
def space (c : Char) : Bool := decide (c ∈ Eval.WHITESPACE)

theorem isSpace_toString (c : Char) : isSpace c.toString = space c := by
  have one : ∀ other : Char, (c.toString == other.toString) = decide (c = other) := by
    intro other
    rw [Bool.eq_iff_iff, beq_iff_eq, decide_eq_true_iff]
    constructor
    · intro same
      have lists := congrArg String.toList same
      rw [toList_character, toList_character] at lists
      exact (List.cons.inj lists).1
    · rintro rfl
      rfl
  show (c.toString == ' '.toString || c.toString == '\t'.toString ||
    c.toString == '\r'.toString || c.toString == '\n'.toString) = _
  rw [one, one, one, one, space, Eval.WHITESPACE, Bool.eq_iff_iff]
  simp only [Bool.or_eq_true, decide_eq_true_eq, List.mem_cons, List.not_mem_nil, or_false,
    or_assoc]

theorem plus_one {count : Nat} (countable : count + 1 < 2 ^ 63) :
    plus (Int64.ofNat count) 1 = some (Int64.ofNat (count + 1)) := by
  apply checked_eq_some.mpr
  rw [Int64.toInt_ofNat_of_lt countable, Int64.toInt_ofNat_of_lt (by omega)]
  rfl

/-- A run that was broken is not counted again. -/
theorem stopped_walk (pieces : List String) (count : Int64) :
    pieces.foldlM
        (fun state ch =>
          if state.counting && isSpace ch then
            (plus state.count 1).map fun count => { count, counting := true }
          else some { count := state.count, counting := false })
        ({ count, counting := false } : LeadingSpaces) = some { count, counting := false } := by
  induction pieces with
  | nil => rfl
  | cons piece pieces ih => exact ih

theorem trimStart_walk (characters : List Char) (start : Nat)
    (countable : start + characters.length < 2 ^ 63) :
    ∃ counting, (characters.map Char.toString).foldlM
        (fun state ch =>
          if state.counting && isSpace ch then
            (plus state.count 1).map fun count => { count, counting := true }
          else some { count := state.count, counting := false })
        ({ count := Int64.ofNat start, counting := true } : LeadingSpaces) =
      some { count := Int64.ofNat (start + (characters.takeWhile space).length), counting } := by
  induction characters generalizing start with
  | nil => exact ⟨true, rfl⟩
  | cons c characters ih =>
      rw [List.length_cons] at countable
      rw [List.map_cons, List.foldlM_cons, List.takeWhile_cons, isSpace_toString]
      cases blank : space c with
      | false => exact ⟨false, stopped_walk _ _⟩
      | true =>
          rcases ih (start + 1) (by omega) with ⟨counting, walked⟩
          refine ⟨counting, ?_⟩
          show (Option.map _ (plus _ _) >>= _) = _
          rw [plus_one (by omega), if_pos rfl, List.length_cons]
          have moved : start + ((characters.takeWhile space).length + 1) =
              start + 1 + (characters.takeWhile space).length := by omega
          rw [moved]
          exact walked

theorem toList_trimStart (held : Held text) :
    ∃ trimmed, trimStart text = some trimmed ∧ trimmed.toList = text.toList.dropWhile space := by
  have count := String.length_toList (s := text)
  have less := (List.takeWhile_prefix space (l := text.toList)).length_le
  have small : text.length < 2 ^ 63 - 1 := held
  rcases trimStart_walk text.toList 0 (by omega) with ⟨counting, walked⟩
  rw [Nat.zero_add] at walked
  refine ⟨slice text (Int64.ofNat (text.toList.takeWhile space).length) (lengthOf text), ?_, ?_⟩
  · rw [trimStart, split_nothing]
    exact congrArg (Option.map _) walked
  · have first : clamped (Int64.ofNat (text.toList.takeWhile space).length) =
        (text.toList.takeWhile space).length := by
      rw [clamped, Int64.toInt_ofNat_of_lt (by omega), Int.toNat_natCast]
    rw [toList_slice held, first, clamped_lengthOf held, List.take_of_length_le (by omega)]
    have whole : text.toList.takeWhile space ++ text.toList.dropWhile space = text.toList :=
      List.takeWhile_append_dropWhile
    calc text.toList.drop (text.toList.takeWhile space).length
        = (text.toList.takeWhile space ++ text.toList.dropWhile space).drop
            (text.toList.takeWhile space).length := by rw [whole]
      _ = text.toList.dropWhile space := List.drop_left

theorem trimEnd_walk (characters : List Char) (countable : characters.length < 2 ^ 63) :
    (characters.map Char.toString).foldlM (fun run ch => if isSpace ch then plus run 1 else some 0)
      0 = some (Int64.ofNat (characters.rtakeWhile space).length) := by
  induction characters using List.reverseRecOn with
  | nil => rfl
  | append_singleton characters c ih =>
      rw [List.length_append, List.length_singleton] at countable
      have less := (List.rtakeWhile_suffix space characters).length_le
      rw [List.map_append, List.foldlM_append, ih (by omega)]
      show (if isSpace c.toString then plus _ 1 else some 0) >>= some = _
      rw [isSpace_toString]
      cases blank : space c with
      | false =>
          rw [List.rtakeWhile_concat_neg _ _ _ (ne_true_of_eq_false blank)]
          rfl
      | true =>
          rw [List.rtakeWhile_concat_pos _ _ _ blank, if_pos rfl, plus_one (by omega),
            List.length_append]
          rfl

theorem toList_trimEnd (held : Held text) :
    ∃ trimmed, trimEnd text = some trimmed ∧ trimmed.toList = text.toList.rdropWhile space := by
  have count := String.length_toList (s := text)
  have small : text.length < 2 ^ 63 - 1 := held
  have whole : (text.toList.rdropWhile space).length + (text.toList.rtakeWhile space).length =
      text.toList.length := by
    rw [← List.length_append, List.rdropWhile_append_rtakeWhile]
  have trailing : (Int64.ofNat (text.toList.rtakeWhile space).length).toInt =
      (text.toList.rtakeWhile space).length := Int64.toInt_ofNat_of_lt (by omega)
  have fits : Wasm.Fits64 ((lengthOf text).toInt -
      (Int64.ofNat (text.toList.rtakeWhile space).length).toInt) := by
    rw [toInt_lengthOf held, trailing]
    unfold Wasm.Fits64
    omega
  obtain ⟨stop, ends⟩ := Option.ne_none_iff_exists'.mp (mt checked_eq_none.mp (not_not.mpr fits))
  have last := checked_eq_some.mp ends
  rw [toInt_lengthOf held, trailing] at last
  refine ⟨slice text 0 stop, ?_, ?_⟩
  · rw [trimEnd, split_nothing, trimEnd_walk _ (by omega)]
    show Option.map _ (minus _ _) = _
    rw [minus, ends]
    rfl
  · have past : clamped stop = (text.toList.rdropWhile space).length := by
      rw [clamped, last]
      omega
    rw [toList_slice held, past, ← List.prefix_iff_eq_take.mp (List.rdropWhile_prefix space _)]
    rfl

/-- The two ends one after the other are both ends at once. -/
theorem trim_ends (held : Held text) : (trimEnd text).bind trimStart = some (trim text) := by
  rcases toList_trimEnd held with ⟨cut, ends, same⟩
  have shorter : Held cut := by
    have less := (List.rdropWhile_prefix space text.toList).length_le
    rw [← same, String.length_toList, String.length_toList] at less
    exact Nat.lt_of_le_of_lt less held
  rcases toList_trimStart shorter with ⟨trimmed, starts, all⟩
  rw [ends]
  show trimStart cut = _
  rw [starts]
  apply congrArg some
  apply String.toList_inj.mp
  rw [all, same, trim, String.toList_ofList, Library.trim]
  exact Library.dropWhile_rdropWhile space text.toList

/-! ## The whole -/

/-- Searching a text for a needle agrees with slicing it, and trimming its ends with trimming
it. -/
structure Searches (text needle : String) : Prop where
  contains_iff : contains text needle = true ↔ ∃ i, Found text needle i
  index_found : (∃ i, Found text needle i) →
    Found text needle (indexOf text needle) ∧ ∀ i, Found text needle i → indexOf text needle ≤ i
  index_missing : (¬∃ i, Found text needle i) → indexOf text needle = lengthOf text
  starts_iff : startsWith text needle = true ↔ Found text needle 0
  ends_iff : ∃ first ends, minus (lengthOf text) (lengthOf needle) = some first ∧
    endsWith text needle = some ends ∧ (ends = true ↔ Found text needle first)
  trims : (trimEnd text).bind trimStart = some (trim text)

/-- Nothing is at every position of a text, and its split says another. -/
theorem not_searches_nothing (held : Held text) : ¬Searches text "" := by
  intro searches
  have everywhere : Found text "" 0 := by
    refine ⟨0, rfl, ?_⟩
    apply String.toList_inj.mp
    rw [toList_slice held]
    rfl
  have several : length (split text "") > 1 :=
    of_decide_eq_true (searches.contains_iff.mpr ⟨0, everywhere⟩)
  have least := (searches.index_found ⟨0, everywhere⟩).2 0 everywhere
  cases characters : text.toList with
  | nil =>
      rw [split_nothing, characters] at several
      exact absurd several (by decide)
  | cons c rest =>
      have second : indexOf text "" = 1 := by
        rw [indexOf]
        show (if length (split text "") > 1 then _ else _) = _
        rw [if_pos several, split_nothing, characters]
        show lengthOf c.toString = 1
        rw [lengthOf, ← String.length_toList, toList_character]
        rfl
      rw [second] at least
      exact absurd least (by decide)

theorem starts_iff_found : startsWith text needle = true ↔ Found text needle 0 := by
  have whole : plus 0 (lengthOf needle) = some (lengthOf needle) := by
    apply checked_eq_some.mpr
    show _ = (0 : Int) + _
    rw [Int.zero_add]
  rw [startsWith, beq_iff_eq]
  constructor
  · intro same
    exact ⟨_, whole, same⟩
  · rintro ⟨stop, ends, same⟩
    rw [whole] at ends
    cases ends
    exact same

theorem ends_iff_found (held : Held text) (small : Held needle) :
    ∃ first ends, minus (lengthOf text) (lengthOf needle) = some first ∧
      endsWith text needle = some ends ∧ (ends = true ↔ Found text needle first) := by
  have fits : Wasm.Fits64 ((lengthOf text).toInt - (lengthOf needle).toInt) := by
    rw [toInt_lengthOf held, toInt_lengthOf small]
    unfold Held at held small
    unfold Wasm.Fits64
    omega
  obtain ⟨first, begins⟩ := Option.ne_none_iff_exists'.mp (mt checked_eq_none.mp (not_not.mpr fits))
  have place := checked_eq_some.mp begins
  have whole : plus first (lengthOf needle) = some (lengthOf text) := by
    apply checked_eq_some.mpr
    omega
  refine ⟨first, slice text first (lengthOf text) == needle, begins, ?_, ?_⟩
  · rw [endsWith, minus, begins]
    rfl
  · rw [beq_iff_eq]
    constructor
    · intro same
      exact ⟨_, whole, same⟩
    · rintro ⟨stop, ends, same⟩
      rw [whole] at ends
      cases ends
      exact same

/-- Searching agrees with slicing exactly when there is something to look for. -/
theorem searches_iff (held : Held text) (small : Held needle) :
    Searches text needle ↔ needle ≠ "" := by
  constructor
  · rintro searches rfl
    exact not_searches_nothing held searches
  · intro some_
    rcases index_cases held small some_ with ⟨inside, found, least⟩ | ⟨outside, missing, nowhere⟩
    · exact {
        contains_iff := iff_of_true inside ⟨_, found⟩
        index_found := fun _ => ⟨found, least⟩
        index_missing := fun none_ => absurd ⟨_, found⟩ none_
        starts_iff := starts_iff_found
        ends_iff := ends_iff_found held small
        trims := trim_ends held }
    · have none_ : ¬∃ i, Found text needle i := fun ⟨i, found⟩ => nowhere i found
      exact {
        contains_iff := iff_of_false (by rw [outside]; exact Bool.false_ne_true) none_
        index_found := fun found => absurd found none_
        index_missing := fun _ => missing
        starts_iff := starts_iff_found
        ends_iff := ends_iff_found held small
        trims := trim_ends held }

theorem searches_overlapping : Searches "aaa" "aa" ↔ "aa" ≠ "" :=
  searches_iff (by decide) (by decide)

theorem nothing_is_not_found : ¬Searches "a" "" := not_searches_nothing (by decide)

end Deed.Stdlib
