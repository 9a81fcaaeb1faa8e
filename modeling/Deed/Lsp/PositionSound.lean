import Deed.Lsp.Position
import Deed.Driver.FixSound
import Deed.Driver.ManifestSound
import Deed.Lexer.Tokenize

/-!
# Positions and offsets are inverse

In a text of fewer than 2^32 bytes, and in no other, the position of a character names the
offset of the character again, positions grow with offsets, and every position names a place on
its line.
-/

namespace Deed.Lsp

open Deed.Lexer
open Deed.Driver.Fixing (isCharBoundary exists_of_boundary exists_gap)
open Deed.Driver.Manifests (plus plus_eq)
open Deed.Library

variable {checks : Bool} {text before rest front last : Text} {lines : Lines}

/-! ## The promise -/

/-- Positions in the order of their lines, and on one line of their columns. -/
def Position.Before (p q : Position) : Prop :=
  p.line < q.line ∨ (p.line = q.line ∧ p.character < q.character)

/-- Nothing, or lines that have ended. -/
def Ended (front : Text) : Prop := front = [] ∨ ∃ init, front = init ++ ['\n']

/-- A line of a text, with its line break where it has one. -/
structure IsLine (text : Text) (number : Nat) (front line : Text) : Prop where
  ended : Ended front
  number : front.count '\n' = number
  whole : (text = front ++ line ∧ '\n' ∉ line) ∨
    ∃ init rest, line = init ++ ['\n'] ∧ '\n' ∉ init ∧ text = front ++ line ++ rest

theorem IsLine.exists_rest {number : Nat} {line : Text} (isLine : IsLine text number front line) :
    ∃ rest, text = front ++ (line ++ rest) := by
  rcases isLine.whole with ⟨whole, -⟩ | ⟨init, rest, -, -, whole⟩
  · exact ⟨[], by rw [List.append_nil, whole]⟩
  · exact ⟨rest, by rw [whole, List.append_assoc]⟩

/-- Between the positions and the offsets of a text. -/
structure Exact (checks : Bool) (text : Text) (lines : Lines) : Prop where
  /-- The position of a boundary names the boundary. -/
  back : ∀ before rest, text = before ++ rest → ∃ at_ found,
    lines.position text (bytes before).toUInt32 = some at_ ∧
      lines.offset checks text at_ = some found ∧ found.toNat = bytes before
  /-- A later boundary has a later position. -/
  grows : ∀ before middle rest, text = before ++ middle ++ rest → middle ≠ [] → ∃ p q,
    lines.position text (bytes before).toUInt32 = some p ∧
      lines.position text (bytes (before ++ middle)).toUInt32 = some q ∧ p.Before q
  /-- An offset inside a character has the position of the character. -/
  inside : ∀ before c rest, text = before ++ c :: rest → ∀ offset : UInt32,
    bytes before ≤ offset.toNat → offset.toNat < bytes before + c.utf8Size →
      lines.position text offset = lines.position text (bytes before).toUInt32
  /-- An offset past the end has the position of the end. -/
  past : ∀ offset : UInt32, bytes text ≤ offset.toNat →
    lines.position text offset = lines.position text (bytes text).toUInt32
  /-- Whatever a position is, it names a boundary, on its line or at the end of it. -/
  named : ∀ at_, ∃ found, lines.offset checks text at_ = some found ∧ Boundary text found ∧
    ∀ front line, IsLine text at_.line.toNat front line →
      bytes front ≤ found.toNat ∧ found.toNat ≤ bytes (front ++ line)

/-- The lines of a text are found, and positions and offsets are inverse over them. -/
def Inverse (checks : Bool) (text : Text) : Prop :=
  ∃ lines, Lines.of checks text = some lines ∧ Exact checks text lines

/-! ## Where lines start -/

/-- What follows each line break, from an offset on. -/
def breaks : Nat → Text → List Nat
  | _, [] => []
  | offset, c :: text =>
      if c = '\n' then (offset + 1) :: breaks (offset + c.utf8Size) text
      else breaks (offset + c.utf8Size) text

attribute [grind =] breaks

theorem breaks_append (offset : Nat) (a b : Text) :
    breaks offset (a ++ b) = breaks offset a ++ breaks (offset + bytes a) b := by
  induction a generalizing offset with
  | nil => rfl
  | cons c a ih =>
      rw [List.cons_append, breaks, breaks, bytes_cons, ih, Nat.add_assoc]
      split <;> rfl

theorem length_breaks (offset : Nat) (text : Text) :
    (breaks offset text).length = text.count '\n' := by
  induction text generalizing offset with
  | nil => rfl
  | cons c text ih =>
      rw [breaks]
      by_cases ends : c = '\n'
      · rw [if_pos ends, List.length_cons, ih, ends, List.count_cons_self]
      · rw [if_neg ends, ih, List.count_cons_of_ne ends]

theorem breaks_bounds {offset found : Nat} (there : found ∈ breaks offset text) :
    offset < found ∧ found ≤ offset + bytes text := by
  induction text generalizing offset with
  | nil => cases there
  | cons c text ih =>
      have some_ := c.utf8Size_pos
      rw [breaks] at there
      rw [bytes_cons]
      by_cases ends : c = '\n'
      · rw [if_pos ends] at there
        rcases List.mem_cons.1 there with rfl | there
        · exact ⟨Nat.lt_succ_self _, by omega⟩
        · have later := ih there
          omega
      · rw [if_neg ends] at there
        have later := ih there
        omega

/-- A line break ends the character that it is. -/
theorem breaks_after {offset found : Nat} {c : Char} (there : found ∈ breaks offset (c :: text)) :
    offset + c.utf8Size ≤ found := by
  rw [breaks] at there
  by_cases ends : c = '\n'
  · rw [if_pos ends] at there
    rcases List.mem_cons.1 there with rfl | there
    · rw [ends]
      rfl
    · exact (breaks_bounds there).1.le
  · rw [if_neg ends] at there
    exact (breaks_bounds there).1.le

/-- The last line to start in lines that have ended starts behind them. -/
theorem getLast?_breaks (ended : Ended front) :
    (0 :: breaks 0 front).getLast? = some (bytes front) := by
  rcases ended with rfl | ⟨init, rfl⟩
  · rfl
  · have one : breaks (0 + bytes init) ['\n'] = [bytes init + 1] := by
      rw [breaks, if_pos rfl, Nat.zero_add]
      rfl
    rw [breaks_append, one, ← List.cons_append, List.getLast?_concat, bytes_append]
    rfl

theorem startsFrom_eq {offset : Nat} (small : offset + bytes text < 2 ^ 32) :
    startsFrom checks text offset = some ((breaks offset text).map Nat.toUInt32) := by
  induction text generalizing offset with
  | nil => rfl
  | cons c text ih =>
      rw [bytes_cons, ← Nat.add_assoc] at small
      rw [startsFrom, breaks]
      by_cases ends : c = '\n'
      · have at_ : offset.toUInt32.toNat = offset := toNat_toUInt32 (by omega)
        have some_ := c.utf8Size_pos
        have fits : offset.toUInt32.toNat + (1 : UInt32).toNat < 2 ^ 32 := by
          rw [at_]
          show offset + 1 < 2 ^ 32
          omega
        obtain ⟨summed, -⟩ := plus_eq checks _ _ fits
        have same : offset.toUInt32 + 1 = (offset + 1).toUInt32 := by
          rw [← UInt32.toNat_inj, toNat_toUInt32 (by omega), UInt32.toNat_add, at_]
          exact Nat.mod_eq_of_lt (by omega)
        rw [if_pos ends, if_pos ends, summed, ih small, same]
        rfl
      · rw [if_neg ends, if_neg ends, ih small]

/-- The lines of a small text, with where they start. -/
structure Found (text : Text) (lines : Lines) : Prop where
  small : bytes text < 2 ^ 32
  starts : lines.starts = 0 :: (breaks 0 text).map Nat.toUInt32
  length : lines.length.toNat = bytes text

theorem of_eq (checks : Bool) (small : bytes text < 2 ^ 32) :
    ∃ lines, Lines.of checks text = some lines ∧ Found text lines := by
  refine ⟨⟨0 :: (breaks 0 text).map Nat.toUInt32, (bytes text).toUInt32⟩, ?_, small, rfl,
    toNat_toUInt32 small⟩
  rw [Lines.of, startsFrom_eq (by omega)]
  rfl

/-! ## The lines of what comes before -/

theorem exists_ended (before : Text) : ∃ front last, before = front ++ last ∧ Ended front ∧
    '\n' ∉ last := by
  induction before using List.reverseRecOn with
  | nil => exact ⟨[], [], rfl, Or.inl rfl, List.not_mem_nil⟩
  | append_singleton before c ih =>
      by_cases ends : c = '\n'
      · exact ⟨before ++ [c], [], (List.append_nil _).symm, Or.inr ⟨before, by rw [ends]⟩,
          List.not_mem_nil⟩
      · obtain ⟨front, last, rfl, ended, none_⟩ := ih
        refine ⟨front, last ++ [c], List.append_assoc _ _ _, ended, fun there => ?_⟩
        rcases List.mem_append.1 there with there | there
        · exact none_ there
        · exact ends (List.mem_singleton.1 there).symm

theorem count_last (none_ : '\n' ∉ last) : (front ++ last).count '\n' = front.count '\n' := by
  rw [List.count_append, List.count_eq_zero.2 none_, Nat.add_zero]

theorem count_le_bytes (text : Text) : text.count '\n' ≤ bytes text := by
  rw [← length_breaks 0]
  induction text with
  | nil => exact Nat.le_refl 0
  | cons c text ih =>
      have some_ := c.utf8Size_pos
      rw [length_breaks] at ih ⊢
      rw [bytes_cons, List.count_cons]
      split <;> omega

namespace Found

variable (found : Found text lines)

include found

theorem starts_toNat : lines.starts.map UInt32.toNat = 0 :: breaks 0 text := by
  rw [found.starts, List.map_cons, List.map_map]
  congr 1
  rw [List.map_congr_left (g := id), List.map_id]
  intro start there
  have bounds := breaks_bounds there
  have small := found.small
  exact toNat_toUInt32 (by omega)

theorem start_eq (whole : text = front ++ rest) (ended : Ended front) :
    ∃ start, lines.starts[front.count '\n']? = some start ∧ start.toNat = bytes front := by
  have listed : (lines.starts.map UInt32.toNat)[front.count '\n']? = some (bytes front) := by
    rw [found.starts_toNat, whole, breaks_append, ← List.cons_append,
      List.getElem?_append_left (by rw [List.length_cons, length_breaks]; omega),
      ← getLast?_breaks ended, List.getLast?_eq_getElem?, List.length_cons, length_breaks]
    rfl
  rw [List.getElem?_map] at listed
  obtain ⟨start, there, same⟩ := Option.map_eq_some_iff.1 listed
  exact ⟨start, there, same⟩

/-- The line of an offset is that of what comes before the character it is in. -/
theorem lineOf_eq (whole : text = before ++ rest) {offset : UInt32}
    (first : bytes before ≤ offset.toNat)
    (inside : ∀ later ∈ breaks (bytes before) rest, offset.toNat < later) :
    lines.lineOf offset = some (before.count '\n') := by
  have below : ∀ one ∈ 0 :: breaks 0 before, one ≤ offset.toNat := by
    intro one there
    rcases List.mem_cons.1 there with rfl | there
    · exact Nat.zero_le _
    · have bounds := breaks_bounds there
      omega
  have searched := binarySearch_append below inside (List.cons_ne_nil _ _)
  have whole_ : lines.starts.map UInt32.toNat =
      (0 :: breaks 0 before) ++ breaks (bytes before) rest := by
    rw [found.starts_toNat, whole, breaks_append, Nat.zero_add]
    rfl
  rw [Lines.lineOf, whole_, searched, List.length_cons, length_breaks]
  by_cases same : (0 :: breaks 0 before).getLast (List.cons_ne_nil _ _) = offset.toNat
  · rw [if_pos same]
    rfl
  · rw [if_neg same]
    rfl

end Found

/-! ## From offsets to positions -/

/-- The position of what comes after some lines that have ended and a part of another. -/
def positionOf (front last : Text) : Position :=
  ⟨(front.count '\n').toUInt32, (units last).toUInt32⟩

theorem boundary_of {position : Nat} (whole : text = before ++ rest)
    (same : bytes before = position) : isCharBoundary text position = true := by
  rw [isCharBoundary, whole, ← same, takeBytes_append]
  rfl

/-- Nothing is cut inside a character. -/
theorem not_boundary {c : Char} (whole : text = before ++ c :: rest) {position : Nat}
    (first : bytes before < position) (inside : position < bytes before + c.utf8Size) :
    isCharBoundary text position = false := by
  rw [Bool.eq_false_iff]
  intro boundary
  obtain ⟨other, back, whole', size⟩ := exists_of_boundary boundary
  obtain ⟨gap, rfl, same⟩ := exists_gap (whole.symm.trans whole') (by omega)
  rw [bytes_append] at size
  cases gap with
  | nil =>
      rw [bytes_nil] at size
      omega
  | cons d gap =>
      cases same
      rw [bytes_cons] at size
      omega

/-- Back from inside a character is where the character begins. -/
theorem backTo_eq {start : Nat} {c : Char} (whole : text = before ++ c :: rest)
    (order : start ≤ bytes before) {more : Nat} (inside : more < c.utf8Size) :
    Lines.backTo text start (bytes before + more) = bytes before := by
  induction more with
  | zero =>
      rw [Nat.add_zero]
      cases size : bytes before with
      | zero => rfl
      | succ stop =>
          have boundary := boundary_of whole size
          rw [Lines.backTo, if_neg]
          rw [boundary]
          exact fun both => nomatch both.2
  | succ more ih =>
      have none_ : isCharBoundary text (bytes before + (more + 1)) = false :=
        not_boundary whole (by omega) (by omega)
      rw [← Nat.add_assoc] at none_ ⊢
      rw [Lines.backTo, if_pos ⟨by omega, none_⟩]
      exact ih (by omega)

theorem backTo_end {start : Nat} (text : Text) :
    Lines.backTo text start (bytes text) = bytes text := by
  cases size : bytes text with
  | zero => rfl
  | succ stop =>
      have boundary := boundary_of (List.append_nil text).symm size
      rw [Lines.backTo, if_neg]
      rw [boundary]
      exact fun both => nomatch both.2

namespace Found

variable (found : Found text lines)

include found

/-- What is between the start of a line and where the way back ends is measured. -/
theorem position_of (whole : text = front ++ last ++ rest) (ended : Ended front)
    {offset : UInt32}
    (there : lines.lineOf (min offset lines.length) = some (front.count '\n'))
    (back : Lines.backTo text (bytes front) (min offset lines.length).toNat =
      bytes (front ++ last)) :
    lines.position text offset = some (positionOf front last) := by
  rw [List.append_assoc] at whole
  obtain ⟨start, begins, same⟩ := found.start_eq whole ended
  have sliced : slice text start.toNat (bytes (front ++ last)) = some last := by
    rw [same, whole, bytes_append]
    exact slice_append front last rest
  rw [Lines.position]
  simp only [there, begins, Option.bind_eq_bind, Option.bind_some, same, back]
  rw [← same, sliced]
  rfl

theorem position_inside {c : Char} (whole : text = front ++ last ++ c :: rest)
    (ended : Ended front) (none_ : '\n' ∉ last) {offset : UInt32}
    (first : bytes (front ++ last) ≤ offset.toNat)
    (inside : offset.toNat < bytes (front ++ last) + c.utf8Size) :
    lines.position text offset = some (positionOf front last) := by
  have size := congrArg bytes whole
  rw [bytes_append, bytes_cons] at size
  have cut : min offset lines.length = offset := by
    apply if_pos
    rw [UInt32.le_iff_toNat_le, found.length]
    omega
  apply found.position_of whole ended
  · rw [cut, found.lineOf_eq whole first, count_last none_]
    intro later there
    have past := breaks_after there
    omega
  · obtain ⟨more, split⟩ := Nat.exists_eq_add_of_le first
    rw [cut, split]
    apply backTo_eq whole
    · rw [bytes_append]
      omega
    · omega

theorem position_end (whole : text = front ++ last) (ended : Ended front) (none_ : '\n' ∉ last)
    {offset : UInt32} (past : bytes text ≤ offset.toNat) :
    lines.position text offset = some (positionOf front last) := by
  have cut : min offset lines.length = lines.length := by
    show (if offset ≤ lines.length then offset else lines.length) = lines.length
    by_cases less : offset ≤ lines.length
    · rw [if_pos less]
      rw [UInt32.le_iff_toNat_le, found.length] at less
      rw [← UInt32.toNat_inj, found.length]
      omega
    · exact if_neg less
  have whole' : text = front ++ last ++ [] := by rw [List.append_nil, whole]
  apply found.position_of whole' ended
  · rw [cut, found.lineOf_eq whole', count_last none_]
    · rw [found.length, whole]
    · exact fun later there => nomatch there
  · rw [cut, found.length, backTo_end, whole]

/-- The position of a boundary. -/
theorem position_eq (whole : text = front ++ last ++ rest) (ended : Ended front)
    (none_ : '\n' ∉ last) :
    lines.position text (bytes (front ++ last)).toUInt32 = some (positionOf front last) := by
  have size := congrArg bytes whole
  have small := found.small
  rw [bytes_append] at size
  have at_ : (bytes (front ++ last)).toUInt32.toNat = bytes (front ++ last) :=
    toNat_toUInt32 (by omega)
  cases rest with
  | nil =>
      rw [List.append_nil] at whole
      apply found.position_end whole ended none_
      rw [at_, whole]
  | cons c rest =>
      have some_ := c.utf8Size_pos
      apply found.position_inside whole ended none_
      · rw [at_]
      · rw [at_]
        omega

end Found

/-! ## From positions to offsets -/

theorem lenUtf16_pos (c : Char) : 0 < lenUtf16 c := by
  rw [lenUtf16]
  split <;> decide

theorem lenUtf16_le (c : Char) : lenUtf16 c ≤ c.utf8Size := by
  rw [lenUtf16]
  by_cases small : c.toNat < 0x10000
  · rw [if_pos small]
    exact c.utf8Size_pos
  · have wide : 0xffff < c.val := by
      rw [UInt32.lt_iff_toNat_lt]
      show 0xffff < c.toNat
      omega
    rw [if_neg small, Char.utf8Size_eq_four_iff.2 wide]
    decide

theorem units_le (text : Text) : units text ≤ bytes text := by
  induction text with
  | nil => exact Nat.le_refl 0
  | cons c text ih =>
      have one := lenUtf16_le c
      rw [units, List.map_cons, List.sum_cons, ← units, bytes_cons]
      omega

theorem units_append (a b : Text) : units (a ++ b) = units a + units b := by
  rw [units, List.map_append, List.sum_append, units, units]

/-- Where the loop over the characters of a line stops: behind the fewest that have so many
units, or at the end. -/
theorem walk_eq (checks : Bool) (character : UInt32) {passed : UInt32} {stop offset : Nat} (inside : Text)
    (small : passed.toNat + units inside < 2 ^ 32) (ends : offset + bytes inside = stop) :
    ∃ front back, inside = front ++ back ∧
      Lines.walk checks character stop inside offset passed = some (offset + bytes front) ∧
      (∀ front' c, front = front' ++ [c] → passed.toNat + units front' < character.toNat) ∧
      (back ≠ [] → character.toNat ≤ passed.toNat + units front) := by
  induction inside generalizing offset passed with
  | nil =>
      refine ⟨[], [], rfl, ?_, fun front' c no => ?_, fun no => absurd rfl no⟩
      · rw [Lines.walk, ← ends]
      · exact absurd no.symm (List.append_ne_nil_of_right_ne_nil _ (List.cons_ne_nil _ _))
  | cons c inside ih =>
      rw [Lines.walk]
      by_cases enough : character ≤ passed
      · refine ⟨[], c :: inside, rfl, if_pos enough, fun front' d no => ?_, fun _ => ?_⟩
        · exact absurd no.symm (List.append_ne_nil_of_right_ne_nil _ (List.cons_ne_nil _ _))
        · exact UInt32.le_iff_toNat_le.1 enough
      · have less : passed.toNat < character.toNat := by
          rw [UInt32.le_iff_toNat_le] at enough
          omega
        rw [units, List.map_cons, List.sum_cons, ← units] at small
        rw [bytes_cons, ← Nat.add_assoc] at ends
        have one : (lenUtf16 c).toUInt32.toNat = lenUtf16 c := toNat_toUInt32 (by omega)
        obtain ⟨summed, sum⟩ := plus_eq checks passed (lenUtf16 c).toUInt32 (by omega)
        rw [one] at sum
        have smaller : (passed + (lenUtf16 c).toUInt32).toNat + units inside < 2 ^ 32 := by omega
        obtain ⟨front, back, rfl, walked, earlier, later⟩ := ih smaller ends
        refine ⟨c :: front, back, rfl, ?_, fun front' d same => ?_, fun some_ => ?_⟩
        · rw [if_neg enough, summed, Option.bind_eq_bind, Option.bind_some, walked, bytes_cons,
            Nat.add_assoc]
        · cases front' with
          | nil => exact less
          | cons e front' =>
              cases same
              have := earlier front' d rfl
              rw [units, List.map_cons, List.sum_cons, ← units]
              omega
        · have := later some_
          rw [units, List.map_cons, List.sum_cons, ← units]
          omega

theorem exists_rest (rest : Text) : '\n' ∉ rest ∨
    ∃ init later, rest = init ++ '\n' :: later ∧ '\n' ∉ init := by
  by_cases there : '\n' ∈ rest
  · exact Or.inr (List.eq_append_cons_of_mem there)
  · exact Or.inl there

/-- Lines that have ended are followed by a line. -/
theorem exists_line (whole : text = front ++ last ++ rest) (ended : Ended front)
    (none_ : '\n' ∉ last) : ∃ more, IsLine text (front.count '\n') front (last ++ more) := by
  rcases exists_rest rest with noBreak | ⟨init, later, rfl, noBreak⟩
  · refine ⟨rest, ended, rfl, Or.inl ⟨by rw [whole, List.append_assoc], fun there => ?_⟩⟩
    exact (List.mem_append.1 there).elim none_ noBreak
  · refine ⟨init ++ ['\n'], ended, rfl, Or.inr ⟨last ++ init, later, ?_, fun there => ?_, ?_⟩⟩
    · rw [List.append_assoc]
    · exact (List.mem_append.1 there).elim none_ noBreak
    · rw [whole]
      simp only [List.append_assoc, List.cons_append, List.nil_append]

theorem exists_front {number : Nat} (few : number ≤ text.count '\n') :
    ∃ front rest, text = front ++ rest ∧ Ended front ∧ front.count '\n' = number := by
  induction number with
  | zero => exact ⟨[], text, rfl, Or.inl rfl, rfl⟩
  | succ number ih =>
      obtain ⟨front, rest, rfl, ended, same⟩ := ih (by omega)
      rcases exists_rest rest with none_ | ⟨init, later, rfl, none_⟩
      · rw [List.count_append, List.count_eq_zero.2 none_] at few
        omega
      · refine ⟨front ++ init ++ ['\n'], later, ?_, Or.inr ⟨_, rfl⟩, ?_⟩
        · simp only [List.append_assoc, List.cons_append, List.nil_append]
        · rw [List.count_append, List.count_append, List.count_eq_zero.2 none_, same]
          rfl

theorem units_pos (some_ : text ≠ []) : 0 < units text := by
  cases text with
  | nil => exact absurd rfl some_
  | cons c text =>
      have one := lenUtf16_pos c
      rw [units, List.map_cons, List.sum_cons]
      omega

namespace Found

variable (found : Found text lines)

include found

/-- A position on a line that there is names the end of a part of the line. -/
theorem offset_line (checks : Bool) {at_ : Position} {line : Text}
    (isLine : IsLine text at_.line.toNat front line) :
    ∃ part more named, line = part ++ more ∧ lines.offset checks text at_ = some named ∧
      named.toNat = bytes (front ++ part) ∧
      (∀ part' c, part = part' ++ [c] → units part' < at_.character.toNat) ∧
      (more ≠ [] → at_.character.toNat ≤ units part) := by
  obtain ⟨rest, whole⟩ := isLine.exists_rest
  have small := found.small
  have size := congrArg bytes whole
  rw [bytes_append, bytes_append] at size
  have few : ¬lines.starts.length ≤ at_.line.toNat := by
    rw [found.starts, List.length_cons, List.length_map, length_breaks, whole, List.count_append,
      isLine.number]
    omega
  obtain ⟨start, begins, same⟩ := found.start_eq whole isLine.ended
  rw [isLine.number] at begins
  have stop : (lines.starts[at_.line.toNat + 1]?).elim (bytes text) UInt32.toNat =
      bytes front + bytes line := by
    rcases isLine.whole with ⟨only, none_⟩ | ⟨init, later, rfl, none_, only⟩
    · have missing : lines.starts[at_.line.toNat + 1]? = none := by
        rw [List.getElem?_eq_none_iff, found.starts, List.length_cons, List.length_map,
          length_breaks, only, List.count_append, isLine.number, List.count_eq_zero.2 none_]
      rw [missing, only, bytes_append]
      rfl
    · obtain ⟨next, there, same'⟩ := found.start_eq only
        (Or.inr ⟨front ++ init, (List.append_assoc _ _ _).symm⟩)
      have number : (front ++ (init ++ ['\n'])).count '\n' = at_.line.toNat + 1 := by
        rw [List.count_append, List.count_append, List.count_eq_zero.2 none_, isLine.number]
        exact congrArg (at_.line.toNat + ·) (Nat.zero_add 1)
      rw [number] at there
      rw [there, ← bytes_append]
      exact same'
  have sliced : slice text start.toNat (bytes front + bytes line) = some line := by
    rw [same, whole]
    exact slice_append front line rest
  have few' := units_le line
  have zero : (0 : UInt32).toNat = 0 := rfl
  have fits : (0 : UInt32).toNat + units line < 2 ^ 32 := by omega
  have ends : start.toNat + bytes line = bytes front + bytes line := by rw [same]
  obtain ⟨part, more, split, walked, earlier, later⟩ := walk_eq checks at_.character line fits ends
  rw [zero, Nat.zero_add] at later
  simp only [zero, Nat.zero_add] at earlier
  have size' := congrArg bytes split
  rw [bytes_append] at size'
  refine ⟨part, more, (bytes (front ++ part)).toUInt32, split, ?_, ?_, earlier, later⟩
  · rw [Lines.offset, if_neg few, begins]
    simp only [Option.bind_eq_bind, Option.bind_some, stop, sliced, walked]
    rw [same, bytes_append]
  · rw [toNat_toUInt32]
    rw [bytes_append]
    omega

end Found

/-! ## Both ways -/

/-- The column behind a part of a line stops the walk there. -/
theorem part_eq {part more more' : Text} (split : last ++ more = part ++ more')
    (earlier : ∀ part' c, part = part' ++ [c] → units part' < units last)
    (later : more' ≠ [] → units last ≤ units part) : part = last := by
  rcases List.append_eq_append_iff.1 split with ⟨gap, longer, -⟩ | ⟨gap, shorter, same⟩
  · cases gap using List.reverseRecOn with
    | nil => rw [longer, List.append_nil]
    | append_singleton gap c =>
        have less := earlier (last ++ gap) c (by rw [longer, List.append_assoc])
        rw [units_append] at less
        omega
  · by_cases none_ : gap = []
    · rw [shorter, none_, List.append_nil]
    · have most := later (by
        rw [same]
        exact List.append_ne_nil_of_left_ne_nil none_ _)
      have some_ := units_pos none_
      rw [shorter, units_append] at most
      omega

namespace Found

variable (found : Found text lines)

include found

theorem line_toNat (whole : text = front ++ last ++ rest) :
    (positionOf front last).line.toNat = front.count '\n' := by
  have few := count_le_bytes front
  have size := congrArg bytes whole
  have small := found.small
  rw [bytes_append, bytes_append] at size
  exact toNat_toUInt32 (by omega)

theorem character_toNat (whole : text = front ++ last ++ rest) :
    (positionOf front last).character.toNat = units last := by
  have few := units_le last
  have size := congrArg bytes whole
  have small := found.small
  rw [bytes_append, bytes_append] at size
  exact toNat_toUInt32 (by omega)

theorem exact (checks : Bool) : Exact checks text lines where
  back before rest whole := by
    obtain ⟨front, last, rfl, ended, none_⟩ := exists_ended before
    obtain ⟨more, isLine⟩ := exists_line whole ended none_
    rw [← found.line_toNat whole] at isLine
    obtain ⟨part, more', named, split, ran, same, earlier, later⟩ :=
      found.offset_line checks isLine
    rw [found.character_toNat whole] at later
    simp only [found.character_toNat whole] at earlier
    refine ⟨_, named, found.position_eq whole ended none_, ran, ?_⟩
    rw [same, part_eq split earlier later]
  grows before middle rest whole some_ := by
    obtain ⟨front, last, rfl, ended, none_⟩ := exists_ended before
    obtain ⟨front', last', rfl, ended', none'⟩ := exists_ended middle
    have whole₁ : text = front ++ last ++ (front' ++ last' ++ rest) := by
      rw [whole, List.append_assoc (front ++ last)]
    have first := found.position_eq whole₁ ended none_
    by_cases same : front' = []
    · rw [same, List.nil_append] at whole some_ ⊢
      have whole₂ : text = front ++ (last ++ last') ++ rest := by
        rw [whole, List.append_assoc front]
      have noBreak : '\n' ∉ last ++ last' := fun there =>
        (List.mem_append.1 there).elim none_ none'
      rw [List.append_assoc]
      refine ⟨_, _, first, found.position_eq whole₂ ended noBreak, Or.inr ⟨rfl, ?_⟩⟩
      rw [UInt32.lt_iff_toNat_lt, found.character_toNat whole₁, found.character_toNat whole₂,
        units_append]
      have more := units_pos some_
      omega
    · obtain ⟨init, rfl⟩ := ended'.resolve_left same
      have whole₂ : text = front ++ last ++ (init ++ ['\n']) ++ last' ++ rest := by
        simp only [whole, List.append_assoc]
      have ended₂ : Ended (front ++ last ++ (init ++ ['\n'])) :=
        Or.inr ⟨front ++ last ++ init, (List.append_assoc _ _ _).symm⟩
      have second := found.position_eq whole₂ ended₂ none'
      rw [List.append_assoc (front ++ last)] at second
      refine ⟨_, _, first, second, Or.inl ?_⟩
      rw [UInt32.lt_iff_toNat_lt, found.line_toNat whole₁, found.line_toNat whole₂]
      simp only [List.count_append, List.count_singleton_self]
      omega
  inside before c rest whole offset first inside_ := by
    obtain ⟨front, last, rfl, ended, none_⟩ := exists_ended before
    rw [found.position_inside whole ended none_ first inside_,
      found.position_eq whole ended none_]
  past offset beyond := by
    obtain ⟨front, last, whole, ended, none_⟩ := exists_ended text
    have whole' : text = front ++ last ++ [] := by rw [List.append_nil, whole]
    rw [found.position_end whole ended none_ beyond]
    have last_ := found.position_eq whole' ended none_
    rw [← whole] at last_
    exact last_.symm
  named at_ := by
    by_cases few : at_.line.toNat ≤ text.count '\n'
    · obtain ⟨front, rest, whole, ended, number⟩ := exists_front few
      have whole' : text = front ++ [] ++ rest := by rw [List.append_nil, whole]
      obtain ⟨line, isLine⟩ := exists_line whole' ended List.not_mem_nil
      rw [number] at isLine
      obtain ⟨part, more, named, split, ran, same, -⟩ := found.offset_line checks isLine
      refine ⟨named, ran, ?_, fun front line isLine => ?_⟩
      · obtain ⟨rest, whole⟩ := isLine.exists_rest
        refine ⟨front ++ part, more ++ rest, ?_, same.symm⟩
        rw [whole, split]
        simp only [List.append_assoc]
      · obtain ⟨part, more, named', split, ran', same, -⟩ := found.offset_line checks isLine
        cases ran.symm.trans ran'
        rw [same, split]
        simp only [bytes_append]
        omega
    · refine ⟨lines.length, if_pos ?_, ⟨text, [], (List.append_nil text).symm,
        found.length.symm⟩, fun front line isLine => ?_⟩
      · rw [found.starts, List.length_cons, List.length_map, length_breaks]
        omega
      · obtain ⟨rest, rfl⟩ := isLine.exists_rest
        rw [List.count_append, isLine.number] at few
        omega

end Found

/-- The end of a text has an offset only where it fits 32 bits. -/
theorem small_of_inverse (inverse : Inverse checks text) : bytes text < 2 ^ 32 := by
  obtain ⟨lines, -, exact⟩ := inverse
  obtain ⟨_, named, -, -, same⟩ := exact.back text [] (List.append_nil text).symm
  rw [← same]
  exact named.toNat_lt

/-- Positions and offsets are inverse over the texts whose offsets fit 32 bits. -/
theorem inverse_iff (checks : Bool) (text : Text) : Inverse checks text ↔ bytes text < 2 ^ 32 := by
  refine ⟨small_of_inverse, fun small => ?_⟩
  obtain ⟨lines, made, found⟩ := of_eq checks small
  exact ⟨lines, made, found.exact checks⟩

/-- The end of a text of 2^32 bytes has no offset. -/
theorem end_without_offset : ¬Inverse true (List.replicate 4294967296 'a') ∧
    ¬Inverse false (List.replicate 4294967296 'a') := by
  constructor
  · intro inverse
    have small := small_of_inverse inverse
    rw [bytes_replicate] at small
    omega
  · intro inverse
    have small := small_of_inverse inverse
    rw [bytes_replicate] at small
    omega

end Deed.Lsp
