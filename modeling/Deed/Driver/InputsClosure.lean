import Deed.Driver.InputsSound

/-!
# The closure of the seeds

Where no source that is found declares another name that is imported, the two loops answer
the closure of the seeds exactly under three conditions: a name whose own source does not
declare it (above all a name the caller has nothing for) is imported once only and is no
module that ships with the compiler while something was found for it, no source is found
under two names, and the caller has nothing for a name that only the compiler's own modules
import.
-/

namespace Deed.Driver

variable {compiler : Compiler} {find : String → Option (String × String)}
  {seeds : List String} {name other : String} {inputs : Inputs}

/-- What the loops answered, against the names the caller is to be asked for. -/
structure Gathered (compiler : Compiler) (find : String → Option (String × String))
    (seeds : List String) (inputs : Inputs) : Prop where
  asked : ∀ name, name ∈ inputs.asked ↔ Consulted compiler find seeds name
  extras : inputs.extras = inputs.asked.filterMap find
  counted : ∀ name, Consulted compiler find seeds name → ¬ Own compiler find name →
    inputs.asked.count name =
      (seeds.flatMap compiler.uses ++ inputs.asked.flatMap (foundUses compiler find)).count name
  shippedOnce : inputs.shipped.Nodup
  shipped : ∀ name, name ∈ inputs.shipped ↔
    Due compiler (seeds ++ inputs.extras.map Prod.snd) name

theorem gathered {turns rounds : Nat} (candid : Candid compiler find seeds)
    (ends : resolveInputs compiler find turns rounds seeds = some inputs) :
    Gathered compiler find seeds inputs := by
  rcases Option.bind_eq_some_iff.1 ends with ⟨final, first, rest⟩
  rcases Option.map_eq_some_iff.1 rest with ⟨shipped, second, rfl⟩
  rcases Gather.Walked.start.run first with ⟨seen, walked, done⟩
  have taken := shippedFor_right second
  refine ⟨fun name => ⟨walked.asked name, walked.asked_of_consulted candid done⟩,
    walked.extras, ?_, taken.1, taken.2⟩
  intro name consulted strange
  show final.asked.count name = _
  rw [← walked.queue, done, List.append_nil]
  exact walked.counted name (walked.unknown candid consulted strange)

namespace Gathered

variable (gathered : Gathered compiler find seeds inputs)
include gathered

theorem mem_extras {answer : String × String} : answer ∈ inputs.extras ↔
    ∃ name, Consulted compiler find seeds name ∧ find name = some answer := by
  rw [gathered.extras, List.mem_filterMap]
  apply exists_congr
  intro name
  rw [gathered.asked]

theorem extra_reached {answer : String × String} (present : answer ∈ inputs.extras) :
    Reached compiler find seeds (.found answer) := by
  rcases gathered.mem_extras.1 present with ⟨name, consulted, answered⟩
  exact consulted_reached consulted answered

/-- Whose text comes before the modules that ship. -/
theorem declared_iff (candid : Candid compiler find seeds)
    (imported : Imported compiler find seeds name) (outside : ¬ Declared compiler seeds name) :
    Declared compiler (seeds ++ inputs.extras.map Prod.snd) name ↔
      Consulted compiler find seeds name ∧ Own compiler find name := by
  constructor
  · rintro ⟨text, present, declares⟩
    rcases List.mem_append.1 present with seed | extra
    · exact absurd ⟨text, seed, declares⟩ outside
    · rcases List.mem_map.1 extra with ⟨answer, listed, rfl⟩
      rcases gathered.mem_extras.1 listed with ⟨asked, consulted, answered⟩
      rcases candid asked answer name (sought_imported consulted.1) consulted.2 answered
        declares imported with same | declared
      · rw [same]
        exact ⟨consulted, answer, answered, same ▸ declares⟩
      · exact absurd declared outside
  · rintro ⟨consulted, answer, answered, own⟩
    refine ⟨answer.2, List.mem_append_right _ ?_, own⟩
    exact List.mem_map.2 ⟨answer, gathered.mem_extras.2 ⟨name, consulted, answered⟩, rfl⟩

theorem outside_of_undeclared
    (undeclared : ¬ Declared compiler (seeds ++ inputs.extras.map Prod.snd) name) :
    ¬ Declared compiler seeds name := by
  rintro ⟨text, present, declares⟩
  exact undeclared ⟨text, List.mem_append_left _ present, declares⟩

/-- A text that was in hand before the modules that ship, as a source. -/
theorem imported_of_uses {text : String}
    (present : text ∈ seeds ++ inputs.extras.map Prod.snd) (uses : name ∈ compiler.uses text) :
    Imported compiler find seeds name := by
  rcases List.mem_append.1 present with seed | extra
  · exact ⟨.seed text, .seed seed, uses⟩
  · rcases List.mem_map.1 extra with ⟨answer, listed, rfl⟩
    exact ⟨.found answer, gathered.extra_reached listed, uses⟩

/-! ## The conditions are enough -/

theorem answers_shipped (candid : Candid compiler find seeds) (plain : Plain compiler find seeds)
    (imported : Imported compiler find seeds name) (listed : name ∈ ORDER)
    (undeclared : ¬ Declared compiler (seeds ++ inputs.extras.map Prod.snd) name) :
    Answers compiler find seeds name (.shipped name) := by
  have outside := gathered.outside_of_undeclared undeclared
  refine .shipped outside ?_ listed
  cases answered : find name with
  | none => rfl
  | some answer =>
      have consulted : Consulted compiler find seeds name :=
        ⟨plain.early name answer imported outside answered, outside⟩
      rcases plain.once name consulted with own | ⟨-, absent⟩
      · exact absurd ((gathered.declared_iff candid imported outside).2 ⟨consulted, own⟩)
          undeclared
      · exact absurd (answered.symm.trans (absent listed)) (Option.some_ne_none answer)

theorem shipped_reached (candid : Candid compiler find seeds) (plain : Plain compiler find seeds)
    (due : Due compiler (seeds ++ inputs.extras.map Prod.snd) name) :
    Reached compiler find seeds (.shipped name) := by
  induction due with
  | wanted given uses listed undeclared =>
      rcases gathered.imported_of_uses given uses with ⟨source, reached, leads⟩
      exact .imported reached leads
        (gathered.answers_shipped candid plain ⟨source, reached, leads⟩ listed undeclared)
  | imported due uses undeclared ih =>
      exact .imported ih uses (gathered.answers_shipped candid plain ⟨_, ih, uses⟩
        (uses_listed due.listed uses) undeclared)

theorem reached_found (plain : Plain compiler find seeds) {source : Source}
    {answer : String × String} (reached : Reached compiler find seeds source)
    (leads : name ∈ source.uses compiler) (outside : ¬ Declared compiler seeds name)
    (answered : find name = some answer) : answer ∈ inputs.extras := by
  have sought := plain.early name answer ⟨source, reached, leads⟩ outside answered
  exact gathered.mem_extras.2 ⟨name, ⟨sought, outside⟩, answered⟩

theorem mem_sources {source : Source} : source ∈ inputs.sources seeds ↔
    (∃ text ∈ seeds, source = .seed text) ∨ (∃ answer ∈ inputs.extras, source = .found answer) ∨
      ∃ name ∈ inputs.shipped, source = .shipped name := by
  simp only [Inputs.sources, List.mem_append, List.mem_map, eq_comm, or_assoc]

theorem reached_sources (candid : Candid compiler find seeds)
    (plain : Plain compiler find seeds) {source : Source}
    (reached : Reached compiler find seeds source) : source ∈ inputs.sources seeds := by
  induction reached with
  | @seed text present => exact gathered.mem_sources.2 (Or.inl ⟨text, present, rfl⟩)
  | @imported source other name reached leads answers ih =>
      cases answers with
      | @seed text present declares =>
          exact gathered.mem_sources.2 (Or.inl ⟨text, present, rfl⟩)
      | @found answer outside answered =>
          exact gathered.mem_sources.2 (Or.inr (Or.inl ⟨answer,
            gathered.reached_found plain reached leads outside answered, rfl⟩))
      | shipped outside absent listed =>
          refine gathered.mem_sources.2 (Or.inr (Or.inr ⟨name, ?_, rfl⟩))
          have undeclared :
              ¬ Declared compiler (seeds ++ inputs.extras.map Prod.snd) name := by
            intro declared
            rcases (gathered.declared_iff candid ⟨source, reached, leads⟩ outside).1 declared
              with ⟨-, answer, answered, -⟩
            exact absurd (answered.symm.trans absent) (Option.some_ne_none answer)
          rw [gathered.shipped]
          rcases gathered.mem_sources.1 ih with
            ⟨text, present, rfl⟩ | ⟨answer, present, rfl⟩ | ⟨one, present, rfl⟩
          · exact .wanted (List.mem_append_left _ present) leads listed undeclared
          · exact .wanted (List.mem_append_right _ (List.mem_map.2 ⟨answer, present, rfl⟩)) leads
              listed undeclared
          · exact .imported ((gathered.shipped one).1 present) leads undeclared

theorem closure_of_plain (candid : Candid compiler find seeds)
    (plain : Plain compiler find seeds) (unique : inputs.asked.Nodup) :
    inputs.Closure compiler find seeds := by
  refine ⟨unique, fun name asked => ((gathered.asked name).1 asked).2, ?_,
    gathered.shippedOnce, fun source => ⟨?_, gathered.reached_sources candid plain⟩⟩
  · rw [gathered.extras, List.Nodup, List.pairwise_filterMap]
    apply unique.imp_of_mem
    intro one another here there different answer answered answer' answered' same
    exact different (plain.apart one another answer ((gathered.asked one).1 here)
      ((gathered.asked another).1 there) answered (same ▸ answered'))
  · intro present
    rcases gathered.mem_sources.1 present with
      ⟨text, listed, rfl⟩ | ⟨answer, listed, rfl⟩ | ⟨one, listed, rfl⟩
    · exact .seed listed
    · exact gathered.extra_reached listed
    · exact gathered.shipped_reached candid plain ((gathered.shipped one).1 listed)

/-! ## And needed -/

theorem due_of_sought (candid : Candid compiler find seeds)
    (consulted : Consulted compiler find seeds name) (strange : ¬ Own compiler find name)
    (listed : name ∈ ORDER) : Due compiler (seeds ++ inputs.extras.map Prod.snd) name := by
  have undeclared : ¬ Declared compiler (seeds ++ inputs.extras.map Prod.snd) name :=
    fun declared => strange
      ((gathered.declared_iff candid (sought_imported consulted.1) consulted.2).1 declared).2
  cases consulted.1 with
  | @seed text _ present uses =>
      exact .wanted (List.mem_append_left _ present) uses listed undeclared
  | @found asked _ answer sought outside answered uses =>
      have extra := gathered.mem_extras.2 ⟨asked, ⟨sought, outside⟩, answered⟩
      exact .wanted (List.mem_append_right _ (List.mem_map.2 ⟨answer, extra, rfl⟩)) uses
        listed undeclared

variable (closure : inputs.Closure compiler find seeds)
include closure

/-- The caller has nothing for a module that was taken. -/
theorem unanswered (due : Due compiler (seeds ++ inputs.extras.map Prod.snd) name) :
    find name = none := by
  have listed := (gathered.shipped name).2 due
  have reached := (closure.exact_ (.shipped name)).1
    (gathered.mem_sources.2 (Or.inr (Or.inr ⟨name, listed, rfl⟩)))
  cases reached with
  | imported _ _ answers =>
      cases answers with
      | shipped _ absent _ => exact absent

theorem once_of_closure (consulted : Consulted compiler find seeds name)
    (strange : ¬ Own compiler find name) : ImportedOnce compiler find seeds name := by
  intro asked unique inside
  have subset : asked ⊆ inputs.asked := fun one present =>
    (gathered.asked one).2 (inside one present)
  rcases unique.subperm subset with ⟨part, perm, sub⟩
  calc (seeds.flatMap compiler.uses ++ asked.flatMap (foundUses compiler find)).count name
      = (seeds.flatMap compiler.uses ++ part.flatMap (foundUses compiler find)).count name := by
        rw [List.count_append, List.count_append, (perm.flatMap_right _).count_eq]
    _ ≤ (seeds.flatMap compiler.uses ++
          inputs.asked.flatMap (foundUses compiler find)).count name := by
        rw [List.count_append, List.count_append]
        exact Nat.add_le_add_left ((sub.flatMap _).count_le _) _
    _ = inputs.asked.count name := (gathered.counted name consulted strange).symm
    _ ≤ 1 := List.nodup_iff_count_le_one.1 closure.askedOnce name

theorem plain_of_closure (candid : Candid compiler find seeds) :
    Plain compiler find seeds := by
  refine ⟨?_, ?_, ?_⟩
  · intro name consulted
    by_cases own : Own compiler find name
    · exact Or.inl own
    · exact Or.inr ⟨gathered.once_of_closure closure consulted own, fun listed =>
        gathered.unanswered closure (gathered.due_of_sought candid consulted own listed)⟩
  · intro one another answer here there answered answered'
    by_contra different
    have unique := closure.foundOnce
    rw [gathered.extras, List.Nodup, List.pairwise_filterMap] at unique
    have symmetric : Std.Symm fun first second : String =>
        ∀ found, find first = some found → ∀ found', find second = some found' →
          found ≠ found' :=
      ⟨fun first second apart found given found' given' same =>
        apart found' given' found given same.symm⟩
    exact unique.forall ((gathered.asked one).2 here) ((gathered.asked another).2 there)
      different answer answered answer answered' rfl
  · rintro name answer ⟨source, reached, leads⟩ outside answered
    rcases gathered.mem_sources.1 ((closure.exact_ source).2 reached) with
      ⟨text, listed, rfl⟩ | ⟨found, listed, rfl⟩ | ⟨one, listed, rfl⟩
    · exact .seed listed leads
    · rcases gathered.mem_extras.1 listed with ⟨asked, consulted, given⟩
      exact .found consulted.1 consulted.2 given leads
    · by_contra unsought
      have due := (gathered.shipped one).1 listed
      have absent := gathered.unanswered closure (.imported due leads fun declared =>
        unsought ((gathered.declared_iff candid ⟨_, reached, leads⟩ outside).1 declared).1.1)
      exact absurd (answered.symm.trans absent) (Option.some_ne_none answer)

end Gathered

/--
The loops end and answer the closure of the seeds exactly where the conditions hold, for
every caller that answers finitely many sources.
-/
theorem inputs_closed_iff (compiler : Compiler) (find : String → Option (String × String))
    (seeds : List String) (finite : (Set.range find).Finite)
    (candid : Candid compiler find seeds) :
    Resolves compiler find seeds ↔ Plain compiler find seeds := by
  constructor
  · rintro ⟨turns, rounds, inputs, ends, closure⟩
    exact (gathered candid ends).plain_of_closure closure candid
  · intro plain
    have limited : ∃ bound : Finset String, ∀ name, Sought compiler find seeds name →
        name ∈ bound := sought_bounded finite
    rcases limited with ⟨bound, bounded⟩
    rcases Gather.Walked.start.ends plain bounded (bound.card + 1) List.nodup_nil
      (by rw [List.length_nil, Nat.zero_add]; exact Nat.lt_succ_self _) with
      ⟨turns, final, first, unique⟩
    have last : ∃ shipped, shippedFor compiler (ORDER.length + 1)
        (seeds ++ final.extras.map Prod.snd) = some shipped := shippedFor_ends _
    rcases last with ⟨shipped, second⟩
    have ends : resolveInputs compiler find turns (ORDER.length + 1) seeds =
        some ⟨final.asked, final.extras, shipped⟩ := by
      rw [resolveInputs, first, Option.bind_some, second, Option.map_some]
    exact ⟨turns, _, _, ends, (gathered candid ends).closure_of_plain candid plain unique⟩

/-! ## Two seeds that import one module -/

/-- The headers of some texts: two seeds, a source of the caller, and what ships. -/
def headers : List (String × String × List String) :=
  [("module a\nuse std/list.{first}\n", "a", ["std/list"]),
    ("module b\nuse std/list.{concat}\n", "b", ["std/list"]),
    ("module c\nuse b.{value}\n", "c", ["b"]),
    ("module std/string\n", "std/string", []),
    ("module std/list\n", "std/list", []),
    ("module std/table\n", "std/table", []),
    ("module std/map\nuse std/list.{concat}\n", "std/map", ["std/list"]),
    ("module std/hashmap\nuse std/table.{Entry}\n", "std/hashmap", ["std/table"]),
    ("module std/set\nuse std/hashmap.{empty}\nuse std/table.{Entry}\n", "std/set",
      ["std/hashmap", "std/table"]),
    ("module std/ratio\n", "std/ratio", []),
    ("module std/date\n", "std/date", []),
    ("module std/task\nuse std/list.{first, drop}\n", "std/task", ["std/list"])]

/-- Reads the headers, and ships the texts among them whose name is in the order. -/
def headed : Compiler where
  importsOf := fun text => (headers.find? fun entry => entry.1 == text).map Prod.snd
  shippedSource := fun name =>
    (headers.find? fun entry => entry.2.1 == name && ORDER.contains name).map Prod.fst
  carried := by
    have all : ∀ name ∈ ORDER, ((headers.find? fun entry =>
        entry.2.1 == name && ORDER.contains name).any fun entry =>
          ((headers.find? fun other => other.1 == entry.1).map Prod.snd ==
            some (name, entry.2.2)) && entry.2.2.all ORDER.contains) = true := by decide
    intro name listed
    rcases (Option.any_eq_true _ _).1 (all name listed) with ⟨entry, found, good⟩
    rw [Bool.and_eq_true, beq_iff_eq, List.all_eq_true] at good
    refine ⟨entry.1, entry.2.2, ?_, good.1, ?_⟩
    · rw [found]
      rfl
    · intro use present
      exact List.contains_iff_mem.1 (good.2 use present)

/-- One that has a source for one module. -/
def findsB (name : String) : Option (String × String) :=
  if name = "b" then some ("b.deed", "module b\nuse std/list.{concat}\n") else none

theorem findsB_finite : (Set.range findsB).Finite := by
  apply Set.Finite.subset (Set.toFinite {none, findsB "b"})
  rintro answer ⟨name, rfl⟩
  by_cases same : name = "b"
  · rw [same]
    exact Or.inr rfl
  · exact Or.inl (if_neg same)

theorem findsB_candid (seeds : List String) : Candid headed findsB seeds := by
  intro name answer declared imported outside answered declares leads
  left
  by_cases same : name = "b"
  · rw [findsB, if_pos same] at answered
    cases answered
    rw [same]
    exact (Option.some.inj ((by decide : headed.declares
      "module b\nuse std/list.{concat}\n" = some "b").symm.trans declares)).symm
  · rw [findsB, if_neg same] at answered
    exact absurd answered.symm (Option.some_ne_none answer)

theorem inputs_closed_iff_findsB :
    Resolves headed findsB ["module c\nuse b.{value}\n"] ↔
      Plain headed findsB ["module c\nuse b.{value}\n"] :=
  inputs_closed_iff headed findsB _ findsB_finite (findsB_candid _)

/-- Two seeds import a module that only the compiler has, and it is asked for twice. -/
theorem inputs_asked_twice :
    (Set.range fun _ : String => (none : Option (String × String))).Finite ∧
      ¬ Resolves headed (fun _ => none)
        ["module a\nuse std/list.{first}\n", "module b\nuse std/list.{concat}\n"] := by
  constructor
  · exact Set.Finite.subset (Set.finite_singleton none) (Set.range_subset_iff.2 fun _ => rfl)
  · rintro ⟨turns, rounds, inputs, ends, closure⟩
    have candid : Candid headed (fun _ => none)
        ["module a\nuse std/list.{first}\n", "module b\nuse std/list.{concat}\n"] :=
      fun _ answer _ _ _ answered => absurd answered.symm (Option.some_ne_none answer)
    have sought : Sought headed (fun _ => none)
        ["module a\nuse std/list.{first}\n", "module b\nuse std/list.{concat}\n"]
        "std/list" := .seed List.mem_cons_self (by decide)
    have outside : ¬ Declared headed
        ["module a\nuse std/list.{first}\n", "module b\nuse std/list.{concat}\n"]
        "std/list" := by
      rintro ⟨text, listed, declares⟩
      revert text
      decide
    have once := (gathered candid ends).once_of_closure closure ⟨sought, outside⟩
      fun ⟨answer, answered, _⟩ => absurd answered.symm (Option.some_ne_none answer)
    exact absurd (once [] List.nodup_nil fun _ absent => absurd absent List.not_mem_nil)
      (by decide)

end Deed.Driver
