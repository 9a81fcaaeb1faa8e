import Deed.Library.Splitting

/-!
# Lines and words

A text cut into lines, a line without what is unwanted at its ends, and the words of it.  The
elements are of any type, and which of them are blank is a parameter.
-/

namespace Deed.Library

variable {α : Type}

/-- The lines of a list, each with the mark that ends it. -/
def splitInclusive [DecidableEq α] (mark : α) : List α → List (List α)
  | [] => []
  | head :: rest =>
      if head = mark then [head] :: splitInclusive mark rest
      else
        match splitInclusive mark rest with
        | [] => [[head]]
        | line :: lines => (head :: line) :: lines

/-- A line in front of others is the first of them. -/
theorem splitInclusive_append [DecidableEq α] {mark : α} {line : List α} (plain : mark ∉ line)
    (rest : List α) :
    splitInclusive mark (line ++ mark :: rest) = (line ++ [mark]) :: splitInclusive mark rest := by
  induction line with
  | nil => exact if_pos rfl
  | cons head line ih =>
      rw [List.mem_cons, not_or] at plain
      rw [List.cons_append, splitInclusive, if_neg fun same => plain.1 same.symm, ih plain.2]
      rfl

/-- A mark stands in a line at its end alone. -/
theorem mark_of_mem_splitInclusive [DecidableEq α] {mark : α} {list line : List α}
    (there : line ∈ splitInclusive mark list) :
    (∃ front, line = front ++ [mark] ∧ mark ∉ front) ∨ mark ∉ line := by
  induction list generalizing line with
  | nil => cases there
  | cons head rest ih =>
      rw [splitInclusive] at there
      by_cases here : head = mark
      · rw [if_pos here] at there
        rcases List.mem_cons.1 there with rfl | there
        · exact .inl ⟨[], by rw [here, List.nil_append], List.not_mem_nil⟩
        · exact ih there
      · rw [if_neg here] at there
        cases lines : splitInclusive mark rest with
        | nil =>
            rw [lines] at there
            rw [List.mem_singleton.1 there]
            exact .inr fun same => here (List.mem_singleton.1 same).symm
        | cons line' lines' =>
            rw [lines] at there ih
            rcases List.mem_cons.1 there with rfl | there
            · rcases ih List.mem_cons_self with ⟨front, rfl, plain⟩ | plain
              · exact .inl ⟨head :: front, rfl, fun same =>
                  (List.mem_cons.1 same).elim (fun same => here same.symm) plain⟩
              · exact .inr fun same =>
                  (List.mem_cons.1 same).elim (fun same => here same.symm) plain
            · exact ih (List.mem_cons_of_mem _ there)

/-- A list without one mark at its end, where it has one. -/
def stripLast [DecidableEq α] (mark : α) (list : List α) : List α :=
  if list.getLast? = some mark then list.dropLast else list

/-- What follows a prefix, where a list begins with it. -/
def stripPrefix [DecidableEq α] (front list : List α) : Option (List α) :=
  if front.isPrefixOf list then some (list.drop front.length) else none

theorem stripPrefix_eq_some [DecidableEq α] {front list rest : List α} :
    stripPrefix front list = some rest ↔ list = front ++ rest := by
  rw [stripPrefix]
  constructor
  · intro stripped
    by_cases here : front.isPrefixOf list = true
    · rw [if_pos here] at stripped
      cases stripped
      exact List.prefix_iff_eq_append.1 (List.isPrefixOf_iff_prefix.1 here) |>.symm
    · rw [if_neg here] at stripped
      cases stripped
  · rintro rfl
    rw [if_pos (List.isPrefixOf_iff_prefix.2 (List.prefix_append front rest)), List.drop_left]

/-! ## The ends of a line -/

section Ends

variable {unwanted : α → Bool}

/-- All of a list is blank. -/
def Blank (unwanted : α → Bool) (list : List α) : Prop := ∀ one ∈ list, unwanted one = true

/-- Something between blanks that neither begins nor ends with one. -/
structure Content (unwanted : α → Bool) (line before body after : List α) : Prop where
  whole : line = before ++ body ++ after
  leading : Blank unwanted before
  trailing : Blank unwanted after
  some_ : body ≠ []
  first : ∀ one ∈ body.head?, unwanted one = false
  last : ∀ one ∈ body.getLast?, unwanted one = false

theorem dropWhile_of_head {list : List α} (first : ∀ one ∈ list.head?, unwanted one = false) :
    list.dropWhile unwanted = list := by
  cases list with
  | nil => rfl
  | cons head rest =>
      exact List.dropWhile_cons_of_neg (Bool.eq_false_iff.1 (first head rfl))

theorem rdropWhile_of_last {list : List α} (last : ∀ one ∈ list.getLast?, unwanted one = false) :
    list.rdropWhile unwanted = list := by
  rw [List.rdropWhile_eq_self_iff]
  intro some_ gone
  have kept := last _ (List.getLast?_eq_some_getLast some_)
  rw [gone] at kept
  cases kept

theorem rdropWhile_append {list after : List α} (trailing : Blank unwanted after) :
    (list ++ after).rdropWhile unwanted = list.rdropWhile unwanted := by
  rw [List.rdropWhile, List.reverse_append, List.dropWhile_append_of_pos, List.rdropWhile]
  intro one there
  exact trailing one (List.mem_reverse.1 there)

theorem head?_dropWhile (unwanted : α → Bool) (list : List α) :
    ∀ one ∈ (list.dropWhile unwanted).head?, unwanted one = false := by
  induction list with
  | nil => exact fun one there => nomatch there
  | cons head rest ih =>
      rw [List.dropWhile_cons]
      by_cases gone : unwanted head = true
      · rw [if_pos gone]
        exact ih
      · rw [if_neg gone]
        rintro one there
        cases there
        exact Bool.eq_false_iff.2 gone

theorem getLast?_rdropWhile (list : List α) :
    ∀ one ∈ (list.rdropWhile unwanted).getLast?, unwanted one = false := by
  rw [List.rdropWhile, List.getLast?_reverse]
  exact head?_dropWhile unwanted list.reverse

variable {line before body after : List α}

theorem Blank.stripLast [DecidableEq α] (blank : Blank unwanted line) (mark : α) :
    Blank unwanted (stripLast mark line) := by
  rw [Library.stripLast]
  by_cases marked : line.getLast? = some mark
  · rw [if_pos marked]
    exact fun one there => blank one (List.mem_of_mem_dropLast there)
  · rw [if_neg marked]
    exact blank

namespace Content

variable (content : Content unwanted line before body after)

include content

theorem trim_start : line.dropWhile unwanted = body ++ after := by
  rw [content.whole, List.append_assoc, List.dropWhile_append_of_pos content.leading]
  apply dropWhile_of_head
  rcases List.exists_cons_of_ne_nil content.some_ with ⟨head, rest, rfl⟩
  exact content.first

theorem trimmed : trim unwanted line = body := by
  rw [trim, content.trim_start, rdropWhile_append content.trailing,
    rdropWhile_of_last content.last]

theorem trim_end : line.rdropWhile unwanted = before ++ body := by
  rw [content.whole, rdropWhile_append content.trailing]
  apply rdropWhile_of_last
  rw [List.getLast?_append_of_ne_nil before content.some_]
  exact content.last

theorem not_blank : ¬Blank unwanted line := by
  intro blank
  rcases List.exists_cons_of_ne_nil content.some_ with ⟨head, rest, rfl⟩
  have gone := blank head (by simp [content.whole])
  rw [content.first head rfl] at gone
  cases gone

theorem unique {before' body' after' : List α}
    (other : Content unwanted line before' body' after') : before' = before ∧ body' = body := by
  have same : body' = body := other.trimmed.symm.trans content.trimmed
  have ends := other.trim_end.symm.trans content.trim_end
  rw [same] at ends
  exact ⟨List.append_cancel_right ends, same⟩

/-- A line has the same content without a blank at its end. -/
theorem stripLast [DecidableEq α] (mark : α) (blank : unwanted mark = true) :
    ∃ after', Content unwanted (stripLast mark line) before body after' := by
  rw [Library.stripLast]
  by_cases marked : line.getLast? = some mark
  · rw [if_pos marked]
    cases after using List.reverseRecOn with
    | nil =>
        rw [content.whole, List.append_nil,
          List.getLast?_append_of_ne_nil before content.some_] at marked
        have kept := content.last mark marked
        rw [blank] at kept
        cases kept
    | append_singleton after end_ =>
        refine ⟨after, ?_, content.leading, ?_, content.some_, content.first, content.last⟩
        · rw [content.whole, ← List.append_assoc, List.dropLast_concat]
        · exact fun one there => content.trailing one (List.mem_append_left _ there)
  · rw [if_neg marked]
    exact ⟨after, content⟩

end Content

theorem blank_or_content (unwanted : α → Bool) (line : List α) :
    Blank unwanted line ∨ ∃ before body after, Content unwanted line before body after := by
  by_cases gone : trim unwanted line = []
  · left
    rw [trim, List.rdropWhile_eq_nil_iff] at gone
    intro one there
    rw [← List.takeWhile_append_dropWhile (p := unwanted) (l := line)] at there
    rcases List.mem_append.1 there with front | back
    · exact List.mem_takeWhile_imp front
    · exact gone one back
  · right
    refine ⟨line.takeWhile unwanted, trim unwanted line,
      (line.dropWhile unwanted).rtakeWhile unwanted, ?_, fun _ => List.mem_takeWhile_imp,
      fun _ => List.mem_rtakeWhile_imp, gone, ?_, getLast?_rdropWhile _⟩
    · rw [List.append_assoc, trim, List.rdropWhile_append_rtakeWhile,
        List.takeWhile_append_dropWhile]
    · intro one there
      refine head?_dropWhile unwanted line one ?_
      obtain ⟨back, whole⟩ := List.rdropWhile_prefix unwanted (line.dropWhile unwanted)
      rw [trim] at gone there
      rw [← whole, List.head?_append_of_ne_nil _ gone]
      exact there

theorem trim_blank (blank : Blank unwanted line) : trim unwanted line = [] := by
  rw [trim, List.rdropWhile_eq_nil_iff]
  intro one there
  exact blank one ((List.dropWhile_sublist unwanted).subset there)

end Ends

/-! ## Words -/

section Words

variable (unwanted : α → Bool)

/-- What is between the blanks of a list. -/
def words (list : List α) : List (List α) := (list.splitOnP unwanted).filter fun word => !word.isEmpty

variable {unwanted}

theorem words_cons_blank {head : α} {rest : List α} (blank : unwanted head = true) :
    words unwanted (head :: rest) = words unwanted rest := by
  rw [words, List.splitOnP_cons_eq_if_modifyHead, if_pos blank]
  rfl

theorem words_append {gap rest : List α} (blank : Blank unwanted gap) :
    words unwanted (gap ++ rest) = words unwanted rest := by
  induction gap with
  | nil => rfl
  | cons head gap ih =>
      rw [List.cons_append, words_cons_blank (blank head List.mem_cons_self),
        ih fun one there => blank one (List.mem_cons_of_mem _ there)]

theorem words_blank {gap : List α} (blank : Blank unwanted gap) : words unwanted gap = [] := by
  rw [← List.append_nil gap, words_append blank]
  rfl

/-- No element of a word is blank. -/
structure Word (unwanted : α → Bool) (word : List α) : Prop where
  some_ : word ≠ []
  solid : ∀ one ∈ word, unwanted one = false

theorem words_word {word : List α} (solid : Word unwanted word) : words unwanted word = [word] := by
  rw [words, List.splitOnP_eq_singleton solid.solid]
  rcases List.exists_cons_of_ne_nil solid.some_ with ⟨head, rest, rfl⟩
  rfl

/-- A word ends where a blank follows it, or nothing. -/
theorem words_word_append {word rest : List α} (solid : Word unwanted word)
    (goes : ∀ one ∈ rest.head?, unwanted one = true) :
    words unwanted (word ++ rest) = word :: words unwanted rest := by
  cases rest with
  | nil =>
      rw [List.append_nil, words_word solid]
      rfl
  | cons head rest =>
      have first := goes head rfl
      rw [words, List.splitOnP_append_cons_of_forall_mem solid.solid _ first,
        words_cons_blank first]
      rcases List.exists_cons_of_ne_nil solid.some_ with ⟨one, more, rfl⟩
      rw [List.filter_cons_of_pos rfl, ← words]

/-- A list is blank, or begins with a word after blanks, and goes on with a blank. -/
theorem blank_or_word (unwanted : α → Bool) (list : List α) : Blank unwanted list ∨
    ∃ gap word rest, list = gap ++ word ++ rest ∧ Blank unwanted gap ∧ Word unwanted word ∧
      ∀ one ∈ rest.head?, unwanted one = true := by
  cases later : list.dropWhile unwanted with
  | nil => exact Or.inl (List.dropWhile_eq_nil_iff.1 later)
  | cons head rest =>
      right
      have first := head?_dropWhile unwanted list head (by rw [later]; rfl)
      refine ⟨list.takeWhile unwanted, (head :: rest).takeWhile fun one => !unwanted one,
        (head :: rest).dropWhile fun one => !unwanted one, ?_, fun _ => List.mem_takeWhile_imp,
        ⟨?_, ?_⟩, ?_⟩
      · rw [List.append_assoc, List.takeWhile_append_dropWhile, ← later,
          List.takeWhile_append_dropWhile]
      · rw [List.takeWhile_cons, first]
        exact List.cons_ne_nil _ _
      · intro one there
        have kept := List.mem_takeWhile_imp there
        rwa [Bool.not_eq_true'] at kept
      · intro one there
        have stopped := head?_dropWhile (fun one => !unwanted one) (head :: rest) one there
        rwa [Bool.not_eq_false'] at stopped

theorem words_eq_nil {list : List α} : words unwanted list = [] ↔ Blank unwanted list := by
  refine ⟨fun none_ => ?_, words_blank⟩
  rcases blank_or_word unwanted list with blank | ⟨gap, word, rest, rfl, blank, solid, goes⟩
  · exact blank
  · rw [List.append_assoc, words_append blank, words_word_append solid goes] at none_
    cases none_

theorem words_eq_cons {list word : List α} {more : List (List α)} :
    words unwanted list = word :: more ↔
      ∃ gap rest, list = gap ++ word ++ rest ∧ Blank unwanted gap ∧ Word unwanted word ∧
        (∀ one ∈ rest.head?, unwanted one = true) ∧ words unwanted rest = more := by
  constructor
  · intro listed
    rcases blank_or_word unwanted list with blank | ⟨gap, first, rest, rfl, blank, solid, goes⟩
    · rw [words_blank blank] at listed
      cases listed
    · rw [List.append_assoc, words_append blank, words_word_append solid goes] at listed
      cases listed
      exact ⟨gap, rest, rfl, blank, solid, goes, rfl⟩
  · rintro ⟨gap, rest, rfl, blank, solid, goes, rfl⟩
    rw [List.append_assoc, words_append blank, words_word_append solid goes]

/-- Words are made of what is in the list. -/
theorem mem_of_mem_words {list word : List α} (there : word ∈ words unwanted list) :
    ∀ one ∈ word, one ∈ list := by
  generalize listed : words unwanted list = all at there
  induction all generalizing list with
  | nil => cases there
  | cons first more ih =>
      obtain ⟨gap, rest, rfl, -, -, -, later⟩ := words_eq_cons.1 listed
      intro one inside
      rcases List.mem_cons.1 there with rfl | there
      · exact List.mem_append_left _ (List.mem_append_right _ inside)
      · exact List.mem_append_right _ (ih later there one inside)

/-- What is not blank is in a word. -/
theorem exists_word (unwanted : α → Bool) {list : List α} {one : α} (there : one ∈ list) (solid : unwanted one = false) :
    ∃ word ∈ words unwanted list, one ∈ word := by
  generalize listed : words unwanted list = all
  induction all generalizing list with
  | nil =>
      rw [words_eq_nil.1 listed one there] at solid
      cases solid
  | cons first more ih =>
      obtain ⟨gap, rest, rfl, blank, -, -, later⟩ := words_eq_cons.1 listed
      rcases List.mem_append.1 there with front | there
      · rcases List.mem_append.1 front with inGap | inside
        · rw [blank one inGap] at solid
          cases solid
        · exact ⟨first, List.mem_cons_self, inside⟩
      · obtain ⟨word, member, inside⟩ := ih there later
        exact ⟨word, List.mem_cons_of_mem _ member, inside⟩

end Words

end Deed.Library
