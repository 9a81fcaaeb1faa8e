import Deed.Eval.Simpler

/-!
# Shrinking makes progress

The smaller forms of a value are below it in one order in which nothing goes on for ever,
unless a variant in it can be replaced by two fieldless ones, which then replace each other.
They can be computed unless it holds the one integer whose magnitude is no integer.
-/

namespace Deed.Eval

/-! ## Values and their parts -/

namespace Value

/-- The values that a value is made of, as far as they are made smaller. -/
def parts : Value → List Value
  | .record fields => fields.map Prod.snd
  | .variant _ _ fields => fields.map Prod.snd
  | .list elements => elements
  | .result _ value => [value]
  | _ => []

/-- A value with other parts. -/
def rebuild : Value → List Value → Value
  | .record fields, values => .record ((fields.map Prod.fst).zip values)
  | .variant origin name fields, values => .variant origin name ((fields.map Prod.fst).zip values)
  | .list _, values => .list values
  | .result ok _, value :: _ => .result ok value
  | value, _ => value

theorem sizeOf_lt_of_mem_parts {part value : Value} (member : part ∈ value.parts) :
    sizeOf part < sizeOf value := by
  have fields : ∀ fields : List (String × Value), part ∈ fields.map Prod.snd →
      sizeOf part < sizeOf fields := by
    intro fields member
    rcases List.mem_map.1 member with ⟨⟨name, value⟩, among, rfl⟩
    have whole := List.sizeOf_lt_of_mem among
    rw [Prod.mk.sizeOf_spec] at whole
    dsimp only
    omega
  cases value with
  | record given =>
      have := fields given member
      rw [Value.record.sizeOf_spec]
      omega
  | variant origin name given =>
      have := fields given member
      rw [Value.variant.sizeOf_spec]
      omega
  | list elements =>
      have inside : sizeOf part < sizeOf elements := List.sizeOf_lt_of_mem member
      rw [Value.list.sizeOf_spec]
      omega
  | result ok value =>
      rw [List.mem_singleton.1 member, Value.result.sizeOf_spec]
      omega
  | _ => exact absurd member List.not_mem_nil

/-- What holds of a value when it holds of its parts holds of every value. -/
@[elab_as_elim]
theorem partsInduction {motive : Value → Prop}
    (whole : ∀ value : Value, (∀ part ∈ value.parts, motive part) → motive value)
    (value : Value) : motive value := by
  induction size : sizeOf value using Nat.strong_induction_on generalizing value with
  | _ size ih =>
      subst size
      apply whole
      intro part member
      exact ih _ (sizeOf_lt_of_mem_parts member) part rfl

theorem parts_rebuild {value : Value} {values : List Value}
    (same : values.length = value.parts.length) : (value.rebuild values).parts = values := by
  have fields : ∀ fields : List (String × Value), values.length = (fields.map Prod.snd).length →
      ((fields.map Prod.fst).zip values).map Prod.snd = values := by
    intro fields same
    apply List.map_snd_zip
    rw [same, List.length_map, List.length_map]
  cases value with
  | record given => exact fields given same
  | variant origin name given => exact fields given same
  | list elements => rfl
  | result ok value =>
      rcases List.length_eq_one_iff.1 same with ⟨inner, rfl⟩
      rfl
  | _ => exact (List.length_eq_zero_iff.1 same).symm

/-- A value is somewhere in another. -/
inductive Within : Value → Value → Prop
  | self {value : Value} : Within value value
  | inside {inner part value : Value} : part ∈ value.parts → Within inner part → Within inner value

end Value

open Value

/-! ## One part made smaller -/

namespace Simpler

variable {simpler : Simpler} {value : Value}

/-- The smaller forms of a value that are not those of its parts. -/
def direct (simpler : Simpler) : Value → Option (List Value)
  | .variant origin name _ =>
      some ((simpler.siblings (origin, name)).map fun other => .variant other.1 other.2 [])
  | .list elements => some (shorter elements)
  | .str text => some ((plainer text.toList).map fun characters => .str (String.ofList characters))
  | .bool true => some [.bool false]
  | .int number => (towardsZero number).map fun candidates => candidates.map .int
  | _ => some []

theorem shrinkFields_eq (fields : List (String × Value)) : simpler.shrinkFields fields =
    (simpler.shrinkElements (fields.map Prod.snd)).map fun changed =>
      changed.map fun values => (fields.map Prod.fst).zip values := by
  induction fields with
  | nil => rfl
  | cons field rest ih =>
      rcases field with ⟨name, value⟩
      have same : (rest.map Prod.fst).zip (rest.map Prod.snd) = rest := by
        rw [← List.unzip_fst, ← List.unzip_snd, List.zip_unzip]
      rw [shrinkFields, ih, List.map_cons, List.map_cons, shrinkElements]
      cases simpler.smaller value with
      | none => rfl
      | some candidates =>
          cases simpler.shrinkElements (rest.map Prod.snd) with
          | none => rfl
          | some changed =>
              simp [Function.comp_def, same]

theorem smaller_eq (value : Value) : simpler.smaller value =
    (simpler.direct value).bind fun first =>
      (simpler.shrinkElements value.parts).map fun changed => first ++ changed.map value.rebuild := by
  cases value with
  | record fields =>
      have own : simpler.direct (.record fields) = some [] := rfl
      rw [smaller, shrinkFields_eq, own, Option.bind_some, Option.map_map, parts]
      congr 1
      funext changed
      rw [Function.comp_apply, List.map_map, List.nil_append]
      rfl
  | variant origin name fields =>
      rw [smaller, shrinkFields_eq, direct, Option.bind_some, Option.map_map, parts]
      congr 1
      funext changed
      rw [Function.comp_apply, List.map_map]
      rfl
  | list elements => rfl
  | result ok inner =>
      have own : simpler.direct (.result ok inner) = some [] := rfl
      rw [smaller, own, Option.bind_some, parts, shrinkElements]
      cases simpler.smaller inner with
      | none => rfl
      | some candidates => simp [shrinkElements, Function.comp_def, rebuild]
  | int number =>
      have own : simpler.direct (.int number) =
          (towardsZero number).map fun candidates => candidates.map .int := rfl
      have none : (Value.int number).parts = [] := rfl
      rw [smaller, own, none, shrinkElements]
      cases towardsZero number <;> simp
  | bool yes => cases yes <;> rfl
  | str text => simp [smaller, direct, parts, shrinkElements]
  | _ => rfl

/-- A list with one element replaced by a smaller form of it. -/
theorem mem_shrinkElements {elements changed : List Value} {out : List (List Value)}
    (shrunk : simpler.shrinkElements elements = some out) (member : changed ∈ out) :
    ∃ front part back candidates candidate, elements = front ++ part :: back ∧
      simpler.smaller part = some candidates ∧ candidate ∈ candidates ∧
        changed = front ++ candidate :: back := by
  induction elements generalizing changed out with
  | nil =>
      rw [shrinkElements] at shrunk
      cases Option.some.inj shrunk
      exact absurd member List.not_mem_nil
  | cons element rest ih =>
      rw [shrinkElements] at shrunk
      rcases Option.bind_eq_some_iff.1 shrunk with ⟨candidates, here, shrunk⟩
      rcases Option.map_eq_some_iff.1 shrunk with ⟨later, there, rfl⟩
      rcases List.mem_append.1 member with member | member
      · rcases List.mem_map.1 member with ⟨candidate, among, rfl⟩
        exact ⟨[], element, rest, candidates, candidate, rfl, here, among, rfl⟩
      · rcases List.mem_map.1 member with ⟨changed, among, rfl⟩
        rcases ih there among with ⟨front, part, back, inner, candidate, rfl, small, mem, rfl⟩
        exact ⟨element :: front, part, back, inner, candidate, rfl, small, mem, rfl⟩

theorem shrinkElements_isSome (elements : List Value) :
    (∃ out, simpler.shrinkElements elements = some out) ↔
      ∀ element ∈ elements, ∃ out, simpler.smaller element = some out := by
  induction elements with
  | nil => exact iff_of_true ⟨[], rfl⟩ fun _ absent => absurd absent List.not_mem_nil
  | cons element rest ih =>
      rw [List.forall_mem_cons, ← ih, shrinkElements]
      constructor
      · rintro ⟨out, shrunk⟩
        rcases Option.bind_eq_some_iff.1 shrunk with ⟨candidates, here, shrunk⟩
        rcases Option.map_eq_some_iff.1 shrunk with ⟨later, there, -⟩
        exact ⟨⟨candidates, here⟩, later, there⟩
      · rintro ⟨⟨candidates, here⟩, later, there⟩
        rw [here, there]
        exact ⟨_, rfl⟩

theorem exists_mem_shrinkElements {elements : List Value} {out : List (List Value)}
    {part candidate : Value} {candidates : List Value}
    (shrunk : simpler.shrinkElements elements = some out) (member : part ∈ elements)
    (small : simpler.smaller part = some candidates) (among : candidate ∈ candidates) :
    ∃ changed ∈ out, candidate ∈ changed := by
  induction elements generalizing out with
  | nil => exact absurd member List.not_mem_nil
  | cons element rest ih =>
      rw [shrinkElements] at shrunk
      rcases Option.bind_eq_some_iff.1 shrunk with ⟨first, here, shrunk⟩
      rcases Option.map_eq_some_iff.1 shrunk with ⟨later, there, rfl⟩
      rcases List.mem_cons.1 member with rfl | member
      · rw [small] at here
        cases Option.some.inj here
        exact ⟨_, List.mem_append_left _ (List.mem_map_of_mem among), List.mem_cons_self⟩
      · rcases ih there member with ⟨changed, inside, holds⟩
        exact ⟨element :: changed, List.mem_append_right _ (List.mem_map_of_mem inside),
          List.mem_cons_of_mem _ holds⟩

/-- A smaller form of a value is one that is not about its parts, or the value with a smaller
form of one of its parts. -/
theorem mem_smaller {out : List Value} {candidate : Value}
    (small : simpler.smaller value = some out) (member : candidate ∈ out) :
    (∃ first, simpler.direct value = some first ∧ candidate ∈ first) ∨
    ∃ front part back candidates inner, value.parts = front ++ part :: back ∧
      simpler.smaller part = some candidates ∧ inner ∈ candidates ∧
        candidate = value.rebuild (front ++ inner :: back) := by
  rw [smaller_eq] at small
  rcases Option.bind_eq_some_iff.1 small with ⟨first, here, small⟩
  rcases Option.map_eq_some_iff.1 small with ⟨changed, there, rfl⟩
  rcases List.mem_append.1 member with member | member
  · exact .inl ⟨first, here, member⟩
  · rcases List.mem_map.1 member with ⟨values, among, rfl⟩
    rcases mem_shrinkElements there among with
      ⟨front, part, back, candidates, inner, whole, small, mem, rfl⟩
    exact .inr ⟨front, part, back, candidates, inner, whole, small, mem, rfl⟩

end Simpler

/-! ## Siblings -/

variable {declared : Choices} {choice choice' : ChoiceDecl} {identity other : Origin}

theorem Choices.eq_of_mem (first : choice ∈ declared.choices) (second : choice' ∈ declared.choices)
    (mine : identity ∈ choice.identities) (theirs : identity ∈ choice'.identities) :
    choice = choice' := by
  by_contra apart
  have symm : Std.Symm (Function.onFun List.Disjoint ChoiceDecl.identities) :=
    ⟨fun _ _ => List.Disjoint.symm⟩
  have disjoint := (List.nodup_flatMap.1 declared.distinct).2.forall first second apart
  exact disjoint mine theirs

theorem ChoiceDecl.mem_identities_of_empty (member : identity ∈ choice.empty) :
    identity ∈ choice.identities := by
  rcases List.mem_filterMap.1 member with ⟨variant, among, named⟩
  exact List.mem_filterMap.2 ⟨variant, (List.mem_filter.1 among).1, named⟩

namespace Simpler

theorem mem_foldl_entry {table : List (Origin × List Origin)} {identities : List Origin}
    {entry : Origin × List Origin} :
    entry ∈ identities.foldl (fun table identity =>
        if (others choice identity).isEmpty then table
        else (identity, others choice identity) :: table) table ↔
      entry ∈ table ∨
        entry.1 ∈ identities ∧ entry.2 = others choice entry.1 ∧ entry.2 ≠ [] := by
  induction identities generalizing table with
  | nil => simp
  | cons identity identities ih =>
      rw [List.foldl_cons, ih]
      by_cases none : (others choice identity).isEmpty
      · rw [if_pos none, List.mem_cons]
        constructor
        · rintro (before | ⟨among, same, real⟩)
          · exact .inl before
          · exact .inr ⟨.inr among, same, real⟩
        · rintro (before | ⟨rfl | among, same, real⟩)
          · exact .inl before
          · rw [same] at real
            exact absurd (List.isEmpty_iff.1 none) real
          · exact .inr ⟨among, same, real⟩
      · rw [if_neg none, List.mem_cons, List.mem_cons]
        have real : others choice identity ≠ [] := fun empty => none (List.isEmpty_iff.2 empty)
        constructor
        · rintro ((rfl | before) | ⟨among, same, real⟩)
          · exact .inr ⟨.inl rfl, rfl, real⟩
          · exact .inl before
          · exact .inr ⟨.inr among, same, real⟩
        · rintro (before | ⟨here | among, same, real⟩)
          · exact .inl (.inr before)
          · refine .inl (.inl ?_)
            rw [← here, ← same]
          · exact .inr ⟨among, same, real⟩

theorem mem_entries {choices : List ChoiceDecl} {table : List (Origin × List Origin)}
    {entry : Origin × List Origin} : entry ∈ choices.foldl entries table ↔
      entry ∈ table ∨ ∃ choice ∈ choices,
        entry.1 ∈ choice.identities ∧ entry.2 = others choice entry.1 ∧ entry.2 ≠ [] := by
  induction choices generalizing table with
  | nil => simp
  | cons choice choices ih =>
      rw [List.foldl_cons, ih, entries, mem_foldl_entry, List.exists_mem_cons_iff, or_assoc]

/-- A variant can be replaced by the fieldless variants of its own choice. -/
theorem mem_siblings : other ∈ (Simpler.of declared).siblings identity ↔
    ∃ choice ∈ declared.choices, identity ∈ choice.identities ∧ other ∈ choice.empty ∧
      other ≠ identity := by
  have table : ∀ found, (identity, found) ∈ (Simpler.of declared).fieldless ↔
      ∃ choice ∈ declared.choices, identity ∈ choice.identities ∧
        found = others choice identity ∧ found ≠ [] := by
    intro found
    show (identity, found) ∈ declared.choices.foldl entries [] ↔ _
    rw [mem_entries]
    simp
  have mem_others : ∀ choice : ChoiceDecl, other ∈ others choice identity ↔
      other ∈ choice.empty ∧ other ≠ identity := by
    intro choice
    rw [others, List.mem_filter, decide_eq_true_iff]
  rw [siblings]
  cases found : (Simpler.of declared).fieldless.lookup identity with
  | none =>
      refine iff_of_false List.not_mem_nil ?_
      rintro ⟨choice, among, mine, simple⟩
      have real := List.ne_nil_of_mem ((mem_others choice).2 simple)
      have entry := (table _).2 ⟨choice, among, mine, rfl, real⟩
      have differs := List.lookup_eq_none_iff.1 found _ entry
      exact absurd rfl (bne_iff_ne.1 differs)
  | some given =>
      rcases List.lookup_eq_some_iff.1 found with ⟨before, after, whole, -⟩
      have entry : (identity, given) ∈ (Simpler.of declared).fieldless := by
        rw [whole]
        exact List.mem_append_right _ List.mem_cons_self
      rcases (table given).1 entry with ⟨choice, among, mine, rfl, -⟩
      rw [Option.getD_some, mem_others]
      constructor
      · exact fun simple => ⟨choice, among, mine, simple⟩
      · rintro ⟨choice', among', mine', simple⟩
        rw [Choices.eq_of_mem among among' mine mine']
        exact simple

end Simpler

/-! ## What makes progress -/

/-- A value is not the least integer, and no variant with more than one fieldless variant in its
choice. -/
def Plain (declared : Choices) : Value → Prop
  | .int number => number ≠ Int64.minValue
  | .variant origin name _ => ∀ choice ∈ declared.choices, (origin, name) ∈ choice.identities →
      choice.empty.length ≤ 1
  | _ => True

/-- Everything in a value is plain. -/
def Fine (declared : Choices) (value : Value) : Prop :=
  ∀ inner, Within inner value → Plain declared inner

theorem fine_iff {value : Value} : Fine declared value ↔
    Plain declared value ∧ ∀ part ∈ value.parts, Fine declared part := by
  constructor
  · intro fine
    exact ⟨fine value .self, fun part member inner within => fine inner (.inside member within)⟩
  · rintro ⟨plain, parts⟩ inner within
    cases within with
    | self => exact plain
    | inside member within => exact parts _ member inner within

/-- The fieldless variant that a plain one can be replaced by cannot be replaced. -/
theorem siblings_eq_nil
    (plain : ∀ choice ∈ declared.choices, identity ∈ choice.identities → choice.empty.length ≤ 1)
    (member : other ∈ (Simpler.of declared).siblings identity) :
    (Simpler.of declared).siblings other = [] := by
  rcases Simpler.mem_siblings.1 member with ⟨choice, among, mine, empty, -⟩
  apply List.eq_nil_iff_forall_not_mem.2
  intro third further
  rcases Simpler.mem_siblings.1 further with ⟨choice', among', theirs, empty', apart⟩
  cases Choices.eq_of_mem among among' (ChoiceDecl.mem_identities_of_empty empty) theirs
  have short := plain choice among mine
  apply apart
  rcases List.mem_iff_getElem.1 empty with ⟨i, below, rfl⟩
  rcases List.mem_iff_getElem.1 empty' with ⟨j, below', rfl⟩
  have same : j = i := by omega
  subst same
  rfl

/-- What a letter adds to the size of a string. -/
def letterSize (letter : Char) : Nat := if letter = 'a' then 1 else 2

mutual

/-- The size of a value, which every smaller form of it is below. -/
def size (simpler : Simpler) : Value → Nat
  | .record fields => sizeFields simpler fields
  | .variant origin name fields =>
      (if (simpler.siblings (origin, name)).isEmpty then 0 else 1) + sizeFields simpler fields
  | .list elements => elements.length + sizeElements simpler elements
  | .str text => (text.toList.map letterSize).sum
  | .bool yes => if yes then 1 else 0
  | .int number => number.toInt.natAbs
  | .result _ value => size simpler value
  | _ => 0

def sizeElements (simpler : Simpler) : List Value → Nat
  | [] => 0
  | element :: rest => size simpler element + sizeElements simpler rest

def sizeFields (simpler : Simpler) : List (String × Value) → Nat
  | [] => 0
  | (_, value) :: rest => size simpler value + sizeFields simpler rest

end

/-- What a value adds to the size of its parts. -/
def ownSize (simpler : Simpler) : Value → Nat
  | .variant origin name _ => if (simpler.siblings (origin, name)).isEmpty then 0 else 1
  | .list elements => elements.length
  | .str text => (text.toList.map letterSize).sum
  | .bool yes => if yes then 1 else 0
  | .int number => number.toInt.natAbs
  | _ => 0

variable {simpler : Simpler} {value : Value}

theorem sizeElements_eq (elements : List Value) :
    sizeElements simpler elements = (elements.map (size simpler)).sum := by
  induction elements with
  | nil => rfl
  | cons element rest ih => rw [sizeElements, ih, List.map_cons, List.sum_cons]

theorem sizeFields_eq (fields : List (String × Value)) :
    sizeFields simpler fields = ((fields.map Prod.snd).map (size simpler)).sum := by
  induction fields with
  | nil => rfl
  | cons field rest ih => rw [sizeFields, ih, List.map_cons, List.map_cons, List.sum_cons]

theorem size_eq (value : Value) :
    size simpler value = ownSize simpler value + (value.parts.map (size simpler)).sum := by
  cases value with
  | record fields => rw [size, sizeFields_eq]; exact (Nat.zero_add _).symm
  | variant origin name fields => rw [size, sizeFields_eq]; rfl
  | list elements => rw [size, sizeElements_eq]; rfl
  | result ok value => rw [size]; exact (Nat.zero_add _).symm
  | _ => rfl

theorem ownSize_rebuild {values : List Value} (same : values.length = value.parts.length) :
    ownSize simpler (value.rebuild values) = ownSize simpler value := by
  cases value with
  | list elements => exact same
  | result ok inner =>
      rcases List.length_eq_one_iff.1 same with ⟨inner, rfl⟩
      rfl
  | _ => rfl

theorem plain_rebuild {values : List Value} (same : values.length = value.parts.length)
    (plain : Plain declared value) : Plain declared (value.rebuild values) := by
  cases value with
  | result ok inner =>
      rcases List.length_eq_one_iff.1 same with ⟨inner, rfl⟩
      trivial
  | _ => exact plain

theorem sum_le_of_sublist {α : Type} (weight : α → Nat) {fewer list : List α}
    (sublist : fewer.Sublist list) : (fewer.map weight).sum ≤ (list.map weight).sum :=
  (sublist.map weight).sum_le_sum fun _ _ => Nat.zero_le _

theorem towardsZero_smaller {number smaller : Int64} {out : List Int64}
    (found : Simpler.towardsZero number = some out) (member : smaller ∈ out) :
    smaller.toInt.natAbs < number.toInt.natAbs ∧ smaller ≠ Int64.minValue := by
  unfold Simpler.towardsZero at found
  by_cases zero : number = 0
  · rw [if_pos zero] at found
    cases Option.some.inj found
    exact absurd member List.not_mem_nil
  rw [if_neg zero] at found
  rcases Option.map_eq_some_iff.1 found with ⟨magnitude, taken, rfl⟩
  have least : number ≠ Int64.minValue := by
    intro same
    rw [checkedAbs, if_pos same] at taken
    exact Option.some_ne_none _ taken.symm
  have low := Int64.minValue_le_toInt number
  have high := Int64.toInt_le number
  have nonzero : number.toInt ≠ 0 := fun same => zero (Int64.toInt_inj.1 same)
  have above : number.toInt ≠ Int64.minValue.toInt := fun same => least (Int64.toInt_inj.1 same)
  rw [Int64.toInt_minValue] at low above
  rw [Int64.toInt_maxValue] at high
  -- It is enough to know how the candidate compares as a number.
  have enough : ∀ candidate : Int64, candidate.toInt.natAbs < number.toInt.natAbs →
      candidate.toInt.natAbs < number.toInt.natAbs ∧ candidate ≠ Int64.minValue := by
    intro candidate less
    refine ⟨less, ?_⟩
    intro same
    rw [same, Int64.toInt_minValue] at less
    omega
  apply enough
  rcases List.mem_append.1 member with member | member
  · rcases List.mem_cons.1 member with rfl | member
    · rw [Int64.toInt_zero]
      omega
    · split at member
      · rw [List.mem_singleton.1 member, Int64.toInt_div_of_ne_left _ _ least]
        have two : (2 : Int64).toInt = 2 := by decide
        rw [two, Int.natAbs_tdiv]
        exact Nat.div_lt_self (Int.natAbs_pos.2 nonzero) (by decide)
      · exact absurd member List.not_mem_nil
  · rw [List.mem_singleton.1 member]
    have one : (1 : Int64).toInt = 1 := by decide
    split
    · next positive =>
        have positive := Int64.lt_iff_toInt_lt.1 positive
        rw [Int64.toInt_zero] at positive
        rw [Int64.toInt_sub, one, Int.bmod_eq_of_le (by omega) (by omega)]
        omega
    · next negative =>
        rw [Int64.lt_iff_toInt_lt, Int64.toInt_zero] at negative
        rw [Int64.toInt_add, one, Int.bmod_eq_of_le (by omega) (by omega)]
        omega

theorem letterSize_pos (letter : Char) : 0 < letterSize letter := by
  unfold letterSize
  split <;> decide

/-- Leaving letters out takes from the size. -/
theorem letters_lt {fewer text : List Char} (sublist : fewer.Sublist text)
    (less : fewer.length < text.length) :
    (fewer.map letterSize).sum < (text.map letterSize).sum := by
  induction sublist with
  | slnil => exact absurd less (Nat.lt_irrefl _)
  | @cons fewer text letter sublist _ =>
      have := sum_le_of_sublist letterSize sublist
      have := letterSize_pos letter
      rw [List.map_cons, List.sum_cons]
      omega
  | cons_cons letter _ ih =>
      have := ih (Nat.lt_of_succ_lt_succ less)
      rw [List.map_cons, List.map_cons, List.sum_cons, List.sum_cons]
      omega

theorem plainer_smaller {text characters : List Char} (member : characters ∈ Simpler.plainer text) :
    (characters.map letterSize).sum < (text.map letterSize).sum := by
  unfold Simpler.plainer at member
  split at member
  · exact absurd member List.not_mem_nil
  next some =>
    have positive : 0 < text.length := by
      rw [List.length_pos_iff, ne_eq, ← List.isEmpty_iff]
      exact some
    rcases List.mem_append.1 member with member | member
    · rcases List.mem_cons.1 member with rfl | member
      · exact letters_lt (List.nil_sublist _) positive
      · split at member
        · rcases List.mem_cons.1 member with rfl | member
          · apply letters_lt (List.take_sublist _ _)
            rw [List.length_take]
            omega
          · rcases List.mem_map.1 member with ⟨skip, below, rfl⟩
            apply letters_lt (List.eraseIdx_sublist _ _)
            rw [List.length_eraseIdx_of_lt (List.mem_range.1 below)]
            omega
        · exact absurd member List.not_mem_nil
    · rcases List.mem_map.1 member with ⟨⟨letter, place⟩, among, rfl⟩
      rcases List.mem_filter.1 among with ⟨inside, other⟩
      have found := List.mem_zipIdx_iff_getElem?.1 inside
      rcases List.getElem?_eq_some_iff.1 found with ⟨below, same⟩
      dsimp only at below same
      have split : text = text.take place ++ letter :: text.drop (place + 1) := by
        rw [← same, List.getElem_cons_drop, List.take_append_drop]
      dsimp only
      rw [List.set_eq_take_append_cons_drop, if_pos below]
      conv_rhs => rw [split]
      simp only [List.map_append, List.map_cons, List.sum_append, List.sum_cons]
      have first : letterSize 'a' = 1 := rfl
      have second : letterSize letter = 2 := if_neg (of_decide_eq_true other)
      omega

/-- A shorter list leaves some elements out. -/
theorem mem_shorter {elements : List Value} {candidate : Value}
    (member : candidate ∈ Simpler.shorter elements) :
    ∃ fewer : List Value, candidate = .list fewer ∧ fewer.Sublist elements ∧
      fewer.length < elements.length := by
  unfold Simpler.shorter at member
  split at member
  · exact absurd member List.not_mem_nil
  next some =>
    have positive : 0 < elements.length := by
      rw [List.length_pos_iff, ne_eq, ← List.isEmpty_iff]
      exact some
    rcases List.mem_cons.1 member with rfl | member
    · exact ⟨[], rfl, List.nil_sublist _, positive⟩
    · split at member
      · rcases List.mem_cons.1 member with rfl | member
        · refine ⟨_, rfl, List.take_sublist _ _, ?_⟩
          rw [List.length_take]
          omega
        · rcases List.mem_map.1 member with ⟨skip, below, rfl⟩
          refine ⟨_, rfl, List.eraseIdx_sublist _ _, ?_⟩
          rw [List.length_eraseIdx_of_lt (List.mem_range.1 below)]
          omega
      · exact absurd member List.not_mem_nil

theorem direct_isSome (plain : Plain declared value) :
    ∃ first, simpler.direct value = some first := by
  cases value with
  | int number =>
      have taken : ∃ magnitude, checkedAbs number = some magnitude := by
        rw [checkedAbs, if_neg plain]
        exact ⟨_, rfl⟩
      rcases taken with ⟨magnitude, taken⟩
      by_cases zero : number = 0
      · exact ⟨[], by rw [zero]; rfl⟩
      · rw [Simpler.direct, Simpler.towardsZero, if_neg zero, taken]
        exact ⟨_, rfl⟩
  | bool yes => cases yes <;> exact ⟨_, rfl⟩
  | _ => exact ⟨_, rfl⟩

/-- What is plain about a variant is plain about what it can be replaced by. -/
def Closed (declared : Choices) (simpler : Simpler) : Prop :=
  ∀ origin name fields other, Plain declared (.variant origin name fields) →
    other ∈ simpler.siblings (origin, name) → Plain declared (.variant other.1 other.2 [])

theorem closed_of (declared : Choices) : Closed declared (Simpler.of declared) := by
  intro origin name fields other plain member
  rcases Simpler.mem_siblings.1 member with ⟨choice, inside, mine, empty, -⟩
  intro choice' inside' theirs
  cases Choices.eq_of_mem inside inside' (ChoiceDecl.mem_identities_of_empty empty) theirs
  exact plain choice inside mine

theorem fine_of_parts (plain : Plain declared value) (none : value.parts = []) :
    Fine declared value := by
  apply fine_iff.2 ⟨plain, ?_⟩
  rw [none]
  exact fun _ absent => absurd absent List.not_mem_nil

theorem direct_fine {first : List Value} {candidate : Value} (closed : Closed declared simpler)
    (fine : Fine declared value) (found : simpler.direct value = some first)
    (member : candidate ∈ first) : Fine declared candidate := by
  rcases fine_iff.1 fine with ⟨plain, parts⟩
  cases value with
  | variant origin name fields =>
      cases Option.some.inj found
      rcases List.mem_map.1 member with ⟨other, among, rfl⟩
      exact fine_of_parts (closed origin name fields other plain among) rfl
  | list elements =>
      cases Option.some.inj found
      rcases mem_shorter member with ⟨fewer, rfl, sublist, -⟩
      exact fine_iff.2 ⟨trivial, fun part inside => parts part (sublist.subset inside)⟩
  | str text =>
      cases Option.some.inj found
      rcases List.mem_map.1 member with ⟨characters, -, rfl⟩
      exact fine_of_parts trivial rfl
  | bool yes =>
      cases yes with
      | false =>
          cases Option.some.inj found
          exact absurd member List.not_mem_nil
      | true =>
          cases Option.some.inj found
          rw [List.mem_singleton.1 member]
          exact fine_of_parts trivial rfl
  | int number =>
      rcases Option.map_eq_some_iff.1 found with ⟨candidates, towards, rfl⟩
      rcases List.mem_map.1 member with ⟨smaller, among, rfl⟩
      exact fine_of_parts (towardsZero_smaller towards among).2 rfl
  | _ =>
      cases Option.some.inj found
      exact absurd member List.not_mem_nil

theorem direct_size {first : List Value} {candidate : Value} (plain : Plain declared value)
    (found : (Simpler.of declared).direct value = some first) (member : candidate ∈ first) :
    size (Simpler.of declared) candidate < size (Simpler.of declared) value := by
  cases value with
  | variant origin name fields =>
      cases Option.some.inj found
      rcases List.mem_map.1 member with ⟨other, among, rfl⟩
      have real : ¬((Simpler.of declared).siblings (origin, name)).isEmpty = true := by
        rw [List.isEmpty_iff]
        exact List.ne_nil_of_mem among
      rw [size, size, siblings_eq_nil plain among, if_neg real, sizeFields, List.isEmpty_nil,
        if_pos rfl]
      omega
  | list elements =>
      cases Option.some.inj found
      rcases mem_shorter member with ⟨fewer, rfl, sublist, less⟩
      rw [size, size, sizeElements_eq, sizeElements_eq]
      have := sum_le_of_sublist (size (Simpler.of declared)) sublist
      omega
  | str text =>
      cases Option.some.inj found
      rcases List.mem_map.1 member with ⟨characters, among, rfl⟩
      rw [size, size, String.toList_ofList]
      exact plainer_smaller among
  | bool yes =>
      cases yes with
      | false =>
          cases Option.some.inj found
          exact absurd member List.not_mem_nil
      | true =>
          cases Option.some.inj found
          rw [List.mem_singleton.1 member]
          exact Nat.zero_lt_one
  | int number =>
      rcases Option.map_eq_some_iff.1 found with ⟨candidates, towards, rfl⟩
      rcases List.mem_map.1 member with ⟨smaller, among, rfl⟩
      exact (towardsZero_smaller towards among).1
  | _ =>
      cases Option.some.inj found
      exact absurd member List.not_mem_nil

/-- The smaller forms of a fine value can be computed, and they are fine. -/
theorem smaller_fine (closed : Closed declared simpler) (fine : Fine declared value) :
    ∃ out, simpler.smaller value = some out ∧ ∀ candidate ∈ out, Fine declared candidate := by
  induction value using Value.partsInduction with
  | whole value ih =>
      rcases fine_iff.1 fine with ⟨plain, parts⟩
      have each : ∀ part ∈ value.parts, ∃ out, simpler.smaller part = some out := by
        intro part member
        rcases ih part member (parts part member) with ⟨out, small, -⟩
        exact ⟨out, small⟩
      rcases (Simpler.shrinkElements_isSome value.parts).2 each with ⟨changed, shrunk⟩
      have starts : ∃ first, simpler.direct value = some first := direct_isSome plain
      rcases starts with ⟨first, direct⟩
      have small : simpler.smaller value = some (first ++ changed.map value.rebuild) := by
        rw [Simpler.smaller_eq, direct, Option.bind_some, shrunk]
        rfl
      refine ⟨_, small, ?_⟩
      intro candidate member
      rcases Simpler.mem_smaller small member with ⟨first, found, member⟩ |
        ⟨front, part, back, candidates, inner, whole, small, among, rfl⟩
      · exact direct_fine closed fine found member
      · have inside : part ∈ value.parts := by
          rw [whole]
          exact List.mem_append_right _ List.mem_cons_self
        rcases ih part inside (parts part inside) with ⟨out, small', below⟩
        rw [small] at small'
        cases Option.some.inj small'
        have length : (front ++ inner :: back).length = value.parts.length := by
          rw [whole, List.length_append, List.length_append]
          rfl
        apply fine_iff.2 ⟨plain_rebuild length plain, ?_⟩
        rw [parts_rebuild length]
        intro other member
        rcases List.mem_append.1 member with before | member
        · exact parts other (by rw [whole]; exact List.mem_append_left _ before)
        · rcases List.mem_cons.1 member with rfl | behind
          · exact below other among
          · exact parts other (by
              rw [whole]
              exact List.mem_append_right _ (List.mem_cons_of_mem _ behind))

/-- The smaller forms of a fine value are of a smaller size. -/
theorem size_smaller {out : List Value} {candidate : Value} (fine : Fine declared value)
    (small : (Simpler.of declared).smaller value = some out) (member : candidate ∈ out) :
    size (Simpler.of declared) candidate < size (Simpler.of declared) value := by
  induction value using Value.partsInduction generalizing out candidate with
  | whole value ih =>
      rcases fine_iff.1 fine with ⟨plain, parts⟩
      rcases Simpler.mem_smaller small member with ⟨first, found, member⟩ |
        ⟨front, part, back, candidates, inner, whole, small, among, rfl⟩
      · exact direct_size plain found member
      · have inside : part ∈ value.parts := by
          rw [whole]
          exact List.mem_append_right _ List.mem_cons_self
        have less := ih part inside (parts part inside) small among
        have length : (front ++ inner :: back).length = value.parts.length := by
          rw [whole, List.length_append, List.length_append]
          rfl
        rw [size_eq, size_eq value, ownSize_rebuild length, parts_rebuild length, whole]
        simp only [List.map_append, List.map_cons, List.sum_append, List.sum_cons]
        omega

/-! ## What makes none -/

/-- One step of shrinking, whether or not the candidate is accepted. -/
def Candidate (simpler : Simpler) (value candidate : Value) : Prop :=
  ∃ out, simpler.smaller value = some out ∧ candidate ∈ out

/-- The smaller forms of a value can be computed, and whatever is taken in their place, and in
the place of that, goes down in an order in which nothing goes on for ever. -/
def Progresses (simpler : Simpler) (value : Value) : Prop :=
  (∃ out, simpler.smaller value = some out) ∧
  ∃ below : Value → Value → Prop, WellFounded below ∧
    ∀ reached, Relation.ReflTransGen (Candidate simpler) value reached →
      ∀ candidate, Candidate simpler reached candidate → below candidate reached

theorem smaller_eq_none (within : Within (.int Int64.minValue) value) :
    simpler.smaller value = none := by
  generalize least : Value.int Int64.minValue = inner at within
  induction within with
  | self =>
      rw [← least]
      rfl
  | @inside part value member _ ih =>
      have none := ih
      cases shrunk : simpler.smaller value with
      | none => rfl
      | some out =>
          rw [Simpler.smaller_eq] at shrunk
          rcases Option.bind_eq_some_iff.1 shrunk with ⟨first, -, shrunk⟩
          rcases Option.map_eq_some_iff.1 shrunk with ⟨changed, there, -⟩
          rcases (Simpler.shrinkElements_isSome value.parts).1 ⟨changed, there⟩ part member with
            ⟨candidates, small⟩
          rw [none] at small
          exact absurd small.symm (Option.some_ne_none _)

/-- No choices at all. -/
def noChoices : Choices := ⟨[], List.nodup_nil⟩

/-- The smaller forms of a value whose smaller forms can be computed can be computed too. -/
theorem smaller_again {candidate : Value} (step : Candidate simpler value candidate) :
    ∃ out, simpler.smaller candidate = some out := by
  have closed : Closed noChoices simpler :=
    fun _ _ _ _ _ _ _ absent => absurd absent List.not_mem_nil
  rcases step with ⟨out, small, member⟩
  have fine : Fine noChoices value := by
    intro inner within
    cases inner with
    | int number =>
        intro least
        rw [least] at within
        exact Option.some_ne_none _ (small.symm.trans (smaller_eq_none within))
    | variant origin name fields => exact fun _ absent => absurd absent List.not_mem_nil
    | _ => trivial
  rcases smaller_fine closed fine with ⟨out', small', each⟩
  rw [small] at small'
  cases Option.some.inj small'
  rcases smaller_fine closed (each candidate member) with ⟨out, small, -⟩
  exact ⟨out, small⟩

/-- A variant anywhere in a value is replaced by its siblings in smaller forms of the value. -/
theorem exists_replaced {origin name : String} {fields : List (String × Value)}
    (within : Within (.variant origin name fields) value)
    (sibling : other ∈ simpler.siblings (origin, name)) {out : List Value}
    (small : simpler.smaller value = some out) :
    ∃ candidate ∈ out, Within (.variant other.1 other.2 []) candidate := by
  generalize given : Value.variant origin name fields = inner at within
  induction within generalizing out with
  | self =>
      subst given
      rw [Simpler.smaller_eq, Simpler.direct, Option.bind_some] at small
      rcases Option.map_eq_some_iff.1 small with ⟨changed, -, rfl⟩
      exact ⟨_, List.mem_append_left _ (List.mem_map_of_mem sibling), .self⟩
  | @inside part value member _ ih =>
      rw [Simpler.smaller_eq] at small
      rcases Option.bind_eq_some_iff.1 small with ⟨first, -, small⟩
      rcases Option.map_eq_some_iff.1 small with ⟨changed, shrunk, rfl⟩
      rcases (Simpler.shrinkElements_isSome value.parts).1 ⟨changed, shrunk⟩ part member with
        ⟨candidates, here⟩
      rcases ih here with ⟨candidate, among, holds⟩
      rcases Simpler.exists_mem_shrinkElements shrunk member here among with
        ⟨values, inside, mem⟩
      rcases Simpler.mem_shrinkElements shrunk inside with
        ⟨front, part', back, -, inner', whole, -, -, same⟩
      have length : values.length = value.parts.length := by
        rw [whole, same, List.length_append, List.length_append]
        rfl
      refine ⟨_, List.mem_append_right _ (List.mem_map_of_mem inside), ?_⟩
      refine .inside ?_ holds
      rw [parts_rebuild length]
      exact mem

/-- A choice with two fieldless variants has one to replace any of its variants by. -/
theorem exists_sibling (among : choice ∈ declared.choices) (mine : identity ∈ choice.identities)
    (several : 1 < choice.empty.length) :
    ∃ other ∈ (Simpler.of declared).siblings identity, other ∈ choice.identities := by
  have distinct : choice.empty.Nodup :=
    ((List.nodup_flatMap.1 declared.distinct).1 choice among).sublist
      ((List.filter_sublist).filterMap _)
  have two : ∃ other ∈ choice.empty, other ≠ identity := by
    by_contra all
    push Not at all
    have some_ : 0 < choice.empty.length := by omega
    have one : choice.empty[0] = choice.empty[1] ↔ 0 = 1 := distinct.getElem_inj_iff
    rw [all _ (List.getElem_mem _), all _ (List.getElem_mem _)] at one
    exact absurd (one.1 rfl) (by decide)
  rcases two with ⟨other, empty, apart⟩
  exact ⟨other, Simpler.mem_siblings.2 ⟨choice, among, mine, empty, apart⟩,
    ChoiceDecl.mem_identities_of_empty empty⟩

/-- A value that holds a variant of a choice. -/
def Holds (choice : ChoiceDecl) (value : Value) : Prop :=
  ∃ origin name fields, (origin, name) ∈ choice.identities ∧
    Within (.variant origin name fields) value

theorem not_progresses (among : choice ∈ declared.choices) (several : 1 < choice.empty.length)
    (holds : Holds choice value) : ¬Progresses (Simpler.of declared) value := by
  rintro ⟨computes, below, order, descends⟩
  -- From each value that holds a variant of the choice another such value is reached.
  have never : ∀ reached, Relation.ReflTransGen (Candidate (Simpler.of declared)) value reached →
      Holds choice reached → (∃ out, (Simpler.of declared).smaller reached = some out) → False := by
    intro reached
    induction reached using order.induction with
    | _ reached ih =>
        rintro chain ⟨origin, name, fields, mine, within⟩ ⟨out, small⟩
        rcases exists_sibling among mine several with ⟨other, sibling, theirs⟩
        rcases exists_replaced within sibling small with ⟨candidate, member, within'⟩
        have step : Candidate (Simpler.of declared) reached candidate := ⟨out, small, member⟩
        exact ih candidate (descends reached chain candidate step) (chain.tail step)
          ⟨other.1, other.2, [], theirs, within'⟩ (smaller_again step)
  exact never value .refl holds computes

/-- Shrinking a value makes progress exactly where it is fine, and it is in one order that all
fine values go down. -/
theorem progresses_iff (declared : Choices) :
    (∀ value, Progresses (Simpler.of declared) value ↔ Fine declared value) ∧
    ∃ below : Value → Value → Prop, WellFounded below ∧ ∀ value, Fine declared value →
      ∀ candidate, Candidate (Simpler.of declared) value candidate →
        below candidate value ∧ Fine declared candidate := by
  have order : WellFounded fun candidate value : Value =>
      size (Simpler.of declared) candidate < size (Simpler.of declared) value :=
    (measure (size (Simpler.of declared))).wf
  have step : ∀ value, Fine declared value → ∀ candidate,
      Candidate (Simpler.of declared) value candidate →
        size (Simpler.of declared) candidate < size (Simpler.of declared) value ∧
          Fine declared candidate := by
    rintro value fine candidate ⟨out, small, member⟩
    rcases smaller_fine (closed_of declared) fine with ⟨out', small', each⟩
    rw [small] at small'
    cases Option.some.inj small'
    exact ⟨size_smaller fine small member, each candidate member⟩
  refine ⟨?_, _, order, step⟩
  intro value
  constructor
  · intro progresses inner within
    by_contra rough
    cases inner with
    | int number =>
        have least : number = Int64.minValue := not_not.1 rough
        rw [least] at within
        rcases progresses.1 with ⟨out, small⟩
        exact Option.some_ne_none _ (small.symm.trans (smaller_eq_none within))
    | variant origin name fields =>
        unfold Plain at rough
        push Not at rough
        rcases rough with ⟨choice, among, mine, several⟩
        exact not_progresses among several ⟨origin, name, fields, mine, within⟩ progresses
    | _ => exact rough trivial
  · intro fine
    rcases smaller_fine (closed_of declared) fine with ⟨out, small, -⟩
    refine ⟨⟨out, small⟩, _, order, ?_⟩
    intro reached chain
    have fine' : Fine declared reached := by
      induction chain with
      | refl => exact fine
      | tail _ last ih => exact (step _ ih _ last).2
    exact fun candidate taken => (step reached fine' candidate taken).1

/-! ### Two fieldless variants -/

/-- A choice of two variants that carry nothing. -/
def sides : Choices where
  choices := [⟨[⟨some ("m", "Left"), none⟩, ⟨some ("m", "Right"), none⟩]⟩]
  distinct := by decide

/-- Each of the two is a smaller form of the other. -/
theorem sides_turn : (Simpler.of sides).smaller (.variant "m" "Left" []) =
      some [.variant "m" "Right" []] ∧
    (Simpler.of sides).smaller (.variant "m" "Right" []) = some [.variant "m" "Left" []] ∧
    ¬Progresses (Simpler.of sides) (.variant "m" "Left" []) ∧
    (Simpler.of sides).smaller (.list [.int Int64.minValue]) = none := by
  refine ⟨rfl, rfl, ?_, rfl⟩
  rintro ⟨-, below, order, descends⟩
  have first : Candidate (Simpler.of sides) (.variant "m" "Left" []) (.variant "m" "Right" []) :=
    ⟨_, rfl, List.mem_singleton_self _⟩
  have second : Candidate (Simpler.of sides) (.variant "m" "Right" []) (.variant "m" "Left" []) :=
    ⟨_, rfl, List.mem_singleton_self _⟩
  exact order.asymmetric _ _ (descends _ .refl _ first) (descends _ (.single first) _ second)

end Deed.Eval
