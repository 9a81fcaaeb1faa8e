import Deed.Driver.Inputs

/-!
# What the two loops find

The first loop's queue is at every turn what was taken off it and what is still wanted,
together all that the seeds and the sources found so far import.  The second loop is a
closure over a finite table.
-/

namespace Deed.Driver

variable {compiler : Compiler} {find : String → Option (String × String)}
  {seeds : List String} {name other text : String} {names : Names}

/-! ## Names -/

theorem Names.mem_read :
    name ∈ (names.read compiler text).known ↔
      name ∈ names.known ∨ compiler.declares text = some name := by
  rw [Names.read, Compiler.declares]
  cases compiler.importsOf text with
  | none => simp
  | some header =>
      simp only [List.mem_cons, Option.map_some, Option.some.injEq]
      rw [or_comm, eq_comm]

@[simp]
theorem Names.wanted_read :
    (names.read compiler text).wanted = names.wanted ++ compiler.uses text := by
  rw [Names.read, Compiler.uses]
  cases compiler.importsOf text with
  | none => exact (List.append_nil _).symm
  | some header => rfl

private theorem foldl_read (texts : List String) (names : Names) :
    (∀ name, name ∈ (texts.foldl (Names.read compiler) names).known ↔
      name ∈ names.known ∨ Declared compiler texts name) ∧
    (texts.foldl (Names.read compiler) names).wanted =
      names.wanted ++ texts.flatMap compiler.uses := by
  induction texts generalizing names with
  | nil =>
      constructor
      · intro name
        simp [Declared]
      · exact (List.append_nil _).symm
  | cons text rest ih =>
      constructor
      · intro name
        rw [List.foldl_cons, (ih _).1, Names.mem_read, or_assoc]
        apply or_congr Iff.rfl
        simp [Declared]
      · rw [List.foldl_cons, (ih _).2, Names.wanted_read, List.flatMap_cons, List.append_assoc]

theorem Names.mem_readAll {texts : List String} :
    name ∈ (Names.readAll compiler texts).known ↔ Declared compiler texts name := by
  rw [Names.readAll, (foldl_read texts _).1]
  simp

theorem Names.wanted_readAll {texts : List String} :
    (Names.readAll compiler texts).wanted = texts.flatMap compiler.uses := by
  rw [Names.readAll, (foldl_read texts _).2]
  rfl

/-! ## The names that are reached -/

theorem sought_imported (sought : Sought compiler find seeds name) :
    Imported compiler find seeds name := by
  induction sought with
  | seed present uses => exact ⟨_, .seed present, uses⟩
  | @found asked name answer sought outside answered uses ih =>
      rcases ih with ⟨source, reached, leads⟩
      exact ⟨.found answer, .imported reached leads (.found outside answered), uses⟩

theorem consulted_reached (consulted : Consulted compiler find seeds name)
    {answer : String × String} (answered : find name = some answer) :
    Reached compiler find seeds (.found answer) := by
  rcases sought_imported consulted.1 with ⟨source, reached, leads⟩
  exact .imported reached leads (.found consulted.2 answered)

/-! ## The first loop -/

/-- What holds after every turn, where `seen` is what was taken off the queue so far. -/
structure Gather.Walked (compiler : Compiler) (find : String → Option (String × String))
    (seeds seen : List String) (state : Gather) : Prop where
  known : ∀ name, name ∈ state.names.known ↔ Declared compiler seeds name ∨
    ∃ asked ∈ state.asked, ∃ answer, find asked = some answer ∧
      compiler.declares answer.2 = some name
  queue : seen ++ state.names.wanted =
    seeds.flatMap compiler.uses ++ state.asked.flatMap (foundUses compiler find)
  extras : state.extras = state.asked.filterMap find
  asked : ∀ name ∈ state.asked, Consulted compiler find seeds name
  settled : ∀ name ∈ seen, name ∈ state.names.known ∨ name ∈ state.asked
  counted : ∀ name, name ∉ state.names.known → state.asked.count name = seen.count name

namespace Gather.Walked

variable {seen rest : List String} {state : Gather}

theorem start : Gather.Walked compiler find seeds []
    ⟨Names.readAll compiler seeds, [], []⟩ := by
  refine ⟨?_, ?_, rfl, ?_, ?_, fun _ _ => rfl⟩
  · intro name
    simp [Names.mem_readAll]
  · simp [Names.wanted_readAll]
  · intro name absent
    exact absurd absent List.not_mem_nil
  · intro name absent
    exact absurd absent List.not_mem_nil

theorem sought_queue (walked : Gather.Walked compiler find seeds seen state)
    (present : name ∈ seen ++ state.names.wanted) : Sought compiler find seeds name := by
  rw [walked.queue] at present
  rcases List.mem_append.1 present with seed | found
  · rcases List.mem_flatMap.1 seed with ⟨text, listed, uses⟩
    exact .seed listed uses
  · rcases List.mem_flatMap.1 found with ⟨asked, listed, uses⟩
    rw [foundUses] at uses
    cases answered : find asked with
    | none =>
        rw [answered] at uses
        exact absurd uses List.not_mem_nil
    | some answer =>
        rw [answered] at uses
        exact .found (walked.asked asked listed).1 (walked.asked asked listed).2 answered uses

/-- A name that is accounted for is dropped. -/
theorem skip (walked : Gather.Walked compiler find seeds seen state)
    (waiting : state.names.wanted = name :: rest) (known : name ∈ state.names.known) :
    Gather.Walked compiler find seeds (seen ++ [name])
      { state with names := ⟨state.names.known, rest⟩ } := by
  refine ⟨walked.known, ?_, walked.extras, walked.asked, ?_, ?_⟩
  · rw [← walked.queue, waiting, List.append_assoc, List.singleton_append]
  · intro seenName present
    rcases List.mem_append.1 present with old | new
    · exact walked.settled seenName old
    · cases List.mem_singleton.1 new
      exact Or.inl known
  · intro missing absent
    have different : name ≠ missing := fun same => absent (same ▸ known)
    rw [List.count_append, List.count_singleton, beq_eq_false_iff_ne.2 different]
    exact walked.counted missing absent

/-- Any other one is asked for. -/
theorem ask (walked : Gather.Walked compiler find seeds seen state)
    (waiting : state.names.wanted = name :: rest) (fresh : name ∉ state.names.known) :
    Gather.Walked compiler find seeds (seen ++ [name])
      (({ state with names := ⟨state.names.known, rest⟩ } : Gather).turn compiler find name) := by
  have outside : ¬ Declared compiler seeds name := fun declared =>
    fresh ((walked.known name).2 (Or.inl declared))
  have consulted : Consulted compiler find seeds name := by
    refine ⟨walked.sought_queue ?_, outside⟩
    rw [waiting]
    exact List.mem_append_right _ List.mem_cons_self
  have queue : (seen ++ [name]) ++ rest =
      seeds.flatMap compiler.uses ++ state.asked.flatMap (foundUses compiler find) := by
    rw [← walked.queue, waiting, List.append_assoc, List.singleton_append]
  have asked : ∀ one ∈ state.asked ++ [name], Consulted compiler find seeds one := by
    intro one present
    rcases List.mem_append.1 present with old | new
    · exact walked.asked one old
    · cases List.mem_singleton.1 new
      exact consulted
  have settled : ∀ one ∈ seen ++ [name],
      one ∈ state.names.known ∨ one ∈ state.asked ++ [name] := by
    intro one present
    rcases List.mem_append.1 present with old | new
    · exact (walked.settled one old).imp_right (List.mem_append_left _)
    · exact Or.inr (List.mem_append_right _ new)
  have counted : ∀ one, one ∉ state.names.known →
      (state.asked ++ [name]).count one = (seen ++ [name]).count one := by
    intro one absent
    rw [List.count_append, List.count_append, walked.counted one absent]
  rw [Gather.turn, if_neg fresh]
  cases answered : find name with
  | none =>
      refine ⟨?_, ?_, ?_, asked, settled, counted⟩
      · intro one
        rw [walked.known]
        simp [answered]
      · rw [queue]
        simp [foundUses, answered]
      · rw [List.filterMap_append, ← walked.extras]
        simp [answered]
  | some answer =>
      refine ⟨?_, ?_, ?_, asked, ?_, ?_⟩
      · intro one
        rw [Names.mem_read, walked.known, or_assoc]
        apply or_congr Iff.rfl
        simp only [List.mem_append, List.mem_singleton, or_and_right, exists_or]
        apply or_congr Iff.rfl
        simp [answered]
      · rw [Names.wanted_read, ← List.append_assoc, queue]
        simp [foundUses, answered]
      · rw [List.filterMap_append, ← walked.extras]
        simp [answered]
      · intro one present
        exact (settled one present).imp_left fun known => Names.mem_read.2 (Or.inl known)
      · intro one absent
        exact counted one fun known => absent (Names.mem_read.2 (Or.inl known))

theorem turn (walked : Gather.Walked compiler find seeds seen state)
    (waiting : state.names.wanted = name :: rest) :
    Gather.Walked compiler find seeds (seen ++ [name])
      (({ state with names := ⟨state.names.known, rest⟩ } : Gather).turn compiler find name) := by
  by_cases known : name ∈ state.names.known
  · rw [Gather.turn, if_pos known]
    exact walked.skip waiting known
  · exact walked.ask waiting known

/-- What holds when the queue is empty. -/
theorem run {turns : Nat} {final : Gather} (walked : Gather.Walked compiler find seeds seen state)
    (ends : state.run compiler find turns = some final) :
    ∃ whole, Gather.Walked compiler find seeds whole final ∧ final.names.wanted = [] := by
  induction turns generalizing state seen with
  | zero => exact absurd ends.symm (Option.some_ne_none final)
  | succ turns ih =>
      cases waiting : state.names.wanted with
      | nil =>
          simp only [Gather.run, waiting] at ends
          cases ends
          exact ⟨seen, walked, waiting⟩
      | cons name rest =>
          simp only [Gather.run, waiting] at ends
          exact ih (walked.turn waiting) ends

/-- Every name the caller is to be asked for was asked for. -/
theorem asked_of_consulted (walked : Gather.Walked compiler find seeds seen state)
    (candid : Candid compiler find seeds) (done : state.names.wanted = [])
    (consulted : Consulted compiler find seeds name) : name ∈ state.asked := by
  have queue := walked.queue
  rw [done, List.append_nil] at queue
  have asked_of_seen : ∀ one ∈ seen, Consulted compiler find seeds one →
      one ∈ state.asked := by
    intro one present consulted
    rcases walked.settled one present with known | asked
    · rcases (walked.known one).1 known with declared | ⟨asked, listed, answer, answered, own⟩
      · exact absurd declared consulted.2
      · have by_ := walked.asked asked listed
        rcases candid asked answer one (sought_imported by_.1) by_.2 answered own
          (sought_imported consulted.1) with same | declared
        · exact same ▸ listed
        · exact absurd declared consulted.2
    · exact asked
  refine asked_of_seen name ?_ consulted
  rcases consulted with ⟨sought, outside⟩
  clear outside
  rw [queue]
  induction sought with
  | seed listed uses =>
      exact List.mem_append_left _ (List.mem_flatMap.2 ⟨_, listed, uses⟩)
  | @found asked name answer sought outside answered uses ih =>
      rw [← queue] at ih
      have listed := asked_of_seen asked ih ⟨sought, outside⟩
      refine List.mem_append_right _ (List.mem_flatMap.2 ⟨asked, listed, ?_⟩)
      rw [foundUses, answered]
      exact uses

/-- A name whose own source does not declare it is never accounted for. -/
theorem unknown (walked : Gather.Walked compiler find seeds seen state)
    (candid : Candid compiler find seeds) (consulted : Consulted compiler find seeds name)
    (strange : ¬ Own compiler find name) : name ∉ state.names.known := by
  intro known
  rcases (walked.known name).1 known with declared | ⟨asked, listed, answer, answered, own⟩
  · exact consulted.2 declared
  · have by_ := walked.asked asked listed
    rcases candid asked answer name (sought_imported by_.1) by_.2 answered own
      (sought_imported consulted.1) with same | declared
    · exact strange (same ▸ ⟨answer, answered, same ▸ own⟩)
    · exact consulted.2 declared

/-! ### It asks once -/

theorem fresh_unasked (walked : Gather.Walked compiler find seeds seen state)
    (plain : Plain compiler find seeds) (unique : state.asked.Nodup)
    (waiting : state.names.wanted = name :: rest) (fresh : name ∉ state.names.known) :
    name ∉ state.asked := by
  intro asked
  rcases plain.once name (walked.asked name asked) with ⟨answer, answered, own⟩ | ⟨once, -⟩
  · exact fresh ((walked.known name).2 (Or.inr ⟨name, asked, answer, answered, own⟩))
  · have bound := once state.asked unique walked.asked
    rw [← walked.queue, waiting, List.count_append, List.count_cons_self,
      ← walked.counted name fresh] at bound
    have present := List.count_pos_iff.2 asked
    omega

theorem asked_turn (fresh : name ∉ state.names.known) :
    (state.turn compiler find name).asked = state.asked ++ [name] := by
  rw [Gather.turn, if_neg fresh]
  cases find name with
  | none => rfl
  | some answer => rfl

theorem asked_bounded (walked : Gather.Walked compiler find seeds seen state)
    (unique : state.asked.Nodup) {bound : Finset String}
    (bounded : ∀ name, Sought compiler find seeds name → name ∈ bound) :
    state.asked.length ≤ bound.card := by
  rw [← List.toFinset_card_of_nodup unique]
  apply Finset.card_le_card
  intro one present
  exact bounded one (walked.asked one (List.mem_toFinset.1 present)).1

/-- The names it comes to are in one finite set, so it comes to an end. -/
theorem ends (plain : Plain compiler find seeds) {bound : Finset String}
    (bounded : ∀ name, Sought compiler find seeds name → name ∈ bound) (left : Nat)
    (walked : Gather.Walked compiler find seeds seen state) (unique : state.asked.Nodup)
    (room : bound.card < state.asked.length + left) :
    ∃ turns final, state.run compiler find turns = some final ∧ final.asked.Nodup := by
  -- A name that is asked for uses up what is left, one that is dropped shortens the queue.
  induction left generalizing state seen with
  | zero => exact absurd room (Nat.not_lt.2 (walked.asked_bounded unique bounded))
  | succ left fewer =>
      obtain ⟨wanted, waiting⟩ : ∃ wanted, state.names.wanted = wanted := ⟨_, rfl⟩
      induction wanted generalizing state seen with
      | nil => exact ⟨1, state, by simp only [Gather.run, waiting], unique⟩
      | cons name rest shorter =>
          have next := walked.turn waiting
          have further : ∃ turns final, (({ state with
              names := ⟨state.names.known, rest⟩ } : Gather).turn compiler find name).run
                compiler find turns = some final ∧ final.asked.Nodup := by
            by_cases known : name ∈ state.names.known
            · rw [Gather.turn, if_pos known] at next ⊢
              exact shorter next unique room rfl
            · have asked : (({ state with names := ⟨state.names.known, rest⟩ } : Gather).turn
                  compiler find name).asked = state.asked ++ [name] := asked_turn known
              have fresh := walked.fresh_unasked plain unique waiting known
              apply fewer next
              · rw [asked]
                exact List.concat_eq_append ▸ unique.concat fresh
              · rw [asked, List.length_append, List.length_singleton]
                omega
          rcases further with ⟨turns, final, runs, once⟩
          refine ⟨turns + 1, final, ?_, once⟩
          simp only [Gather.run, waiting]
          exact runs

end Gather.Walked

/-- Where the answers are finitely many, so are the names. -/
theorem sought_bounded (finite : (Set.range find).Finite) :
    ∃ bound : Finset String, ∀ name, Sought compiler find seeds name → name ∈ bound := by
  refine ⟨(seeds.flatMap compiler.uses).toFinset ∪ finite.toFinset.biUnion fun answer =>
    (answer.elim [] fun found => compiler.uses found.2).toFinset, ?_⟩
  intro name sought
  cases sought with
  | @seed text _ listed uses =>
      apply Finset.mem_union_left
      exact List.mem_toFinset.2 (List.mem_flatMap.2 ⟨text, listed, uses⟩)
  | @found asked _ answer sought outside answered uses =>
      apply Finset.mem_union_right
      refine Finset.mem_biUnion.2 ⟨find asked, finite.mem_toFinset.2 ⟨asked, rfl⟩, ?_⟩
      rw [List.mem_toFinset, answered]
      exact uses

/-! ## The second loop -/

section Shipped

variable {known taken wanted : List String}

theorem find_listed (name : String) :
    ORDER.find? (fun listed => listed == name) = if name ∈ ORDER then some name else none := by
  split
  · next listed =>
      cases found : ORDER.find? fun listed => listed == name with
      | none => exact absurd (BEq.refl name) (List.find?_eq_none.1 found name listed)
      | some one =>
          have same := List.find?_some found
          rw [eq_of_beq same]
  · next absent =>
      rw [List.find?_eq_none]
      intro one listed same
      exact absent (eq_of_beq same ▸ listed)

theorem takeOne_eq : takeOne known taken name =
    if name ∈ ORDER ∧ name ∉ known ∧ name ∉ taken then taken ++ [name] else taken := by
  rw [takeOne, find_listed]
  by_cases old : name ∈ known ∨ name ∈ taken
  · rw [if_pos old, if_neg]
    rintro ⟨-, unknown, untaken⟩
    exact old.elim unknown untaken
  · rw [if_neg old]
    rw [not_or] at old
    by_cases listed : name ∈ ORDER
    · rw [if_pos listed, if_pos ⟨listed, old⟩]
    · rw [if_neg listed, if_neg fun both => listed both.1]

theorem mem_takeOne : other ∈ takeOne known taken name ↔
    other ∈ taken ∨ (other = name ∧ name ∈ ORDER ∧ name ∉ known) := by
  rw [takeOne_eq]
  split
  · next new =>
      rw [List.mem_append, List.mem_singleton]
      apply or_congr Iff.rfl
      rw [iff_self_and]
      intro
      exact ⟨new.1, new.2.1⟩
  · next old =>
      constructor
      · exact Or.inl
      · rintro (present | ⟨rfl, listed, fresh⟩)
        · exact present
        · by_contra absent
          exact old ⟨listed, fresh, absent⟩

theorem takeOne_nodup (unique : taken.Nodup) : (takeOne known taken name).Nodup := by
  rw [takeOne_eq]
  split
  · next new => exact List.concat_eq_append ▸ unique.concat new.2.2
  · exact unique

theorem prefix_takeOne : taken <+: takeOne known taken name := by
  rw [takeOne_eq]
  split
  · exact List.prefix_append _ _
  · exact List.prefix_rfl

theorem mem_takeAll : other ∈ wanted.foldl (takeOne known) taken ↔
    other ∈ taken ∨ (other ∈ wanted ∧ other ∈ ORDER ∧ other ∉ known) := by
  induction wanted generalizing taken with
  | nil => simp
  | cons name rest ih =>
      rw [List.foldl_cons, ih, mem_takeOne, or_assoc]
      apply or_congr Iff.rfl
      rw [List.mem_cons, or_and_right]
      apply or_congr _ Iff.rfl
      constructor
      · rintro ⟨rfl, new⟩
        exact ⟨rfl, new⟩
      · rintro ⟨rfl, new⟩
        exact ⟨rfl, new⟩

theorem takeAll_nodup (unique : taken.Nodup) : (wanted.foldl (takeOne known) taken).Nodup := by
  induction wanted generalizing taken with
  | nil => exact unique
  | cons name rest ih => exact ih (takeOne_nodup unique)

theorem prefix_takeAll : taken <+: wanted.foldl (takeOne known) taken := by
  induction wanted generalizing taken with
  | nil => exact List.prefix_rfl
  | cons name rest ih => exact prefix_takeOne.trans ih

/-- What a module that ships imports. -/
def shippedUses (compiler : Compiler) (name : String) : List String :=
  (Source.shipped name).uses compiler

theorem Names.read_shipped (listed : name ∈ ORDER) :
    (∀ one, one ∈ (names.readShipped compiler name).known ↔ one ∈ names.known ∨ one = name) ∧
      (names.readShipped compiler name).wanted =
        names.wanted ++ shippedUses compiler name := by
  rcases compiler.carried name listed with ⟨text, uses, source, header, -⟩
  have read : names.readShipped compiler name = names.read compiler text := by
    rw [Names.readShipped, source]
  rw [read]
  constructor
  · intro one
    rw [Names.mem_read, Compiler.declares, header]
    simp [eq_comm]
  · rw [Names.wanted_read, shippedUses, Source.uses, source]
    rfl

theorem Names.read_all_shipped (more : List String) (listed : ∀ name ∈ more, name ∈ ORDER) :
    (∀ one, one ∈ (more.foldl (Names.readShipped compiler) names).known ↔
      one ∈ names.known ∨ one ∈ more) ∧
    (more.foldl (Names.readShipped compiler) names).wanted =
      names.wanted ++ more.flatMap (shippedUses compiler) := by
  induction more generalizing names with
  | nil => simp
  | cons name rest ih =>
      have first := @Names.read_shipped compiler name names (listed name List.mem_cons_self)
      have later := @ih (names.readShipped compiler name)
        fun one present => listed one (List.mem_cons_of_mem _ present)
      constructor
      · intro one
        rw [List.foldl_cons, later.1, first.1, or_assoc, List.mem_cons]
      · rw [List.foldl_cons, later.2, first.2, List.flatMap_cons, List.append_assoc]

/-- What the second loop is to take. -/
inductive Due (compiler : Compiler) (sources : List String) : String → Prop where
  | wanted {text name : String} : text ∈ sources → name ∈ compiler.uses text →
      name ∈ ORDER → ¬ Declared compiler sources name → Due compiler sources name
  | imported {other name : String} : Due compiler sources other →
      name ∈ shippedUses compiler other → ¬ Declared compiler sources name →
      Due compiler sources name

theorem uses_listed (listed : name ∈ ORDER) (uses : other ∈ shippedUses compiler name) :
    other ∈ ORDER := by
  rcases compiler.carried name listed with ⟨text, imports, source, header, closed⟩
  apply closed
  rw [shippedUses, Source.uses, source] at uses
  simpa [Compiler.uses, header] using uses

theorem Due.listed {sources : List String} (due : Due compiler sources name) :
    name ∈ ORDER := by
  induction due with
  | wanted _ _ listed _ => exact listed
  | imported _ uses _ ih => exact uses_listed ih uses

/-- What holds after every round. -/
structure Shipping.Right (compiler : Compiler) (sources : List String) (state : Shipping) :
    Prop where
  unique : state.taken.Nodup
  due : ∀ name ∈ state.taken, Due compiler sources name
  known : ∀ name, name ∈ state.names.known ↔ Declared compiler sources name ∨
    name ∈ state.taken
  wanted : ∀ name ∈ state.names.wanted, name ∈ sources.flatMap compiler.uses ∨
    name ∈ state.taken.flatMap (shippedUses compiler)
  closed : ∀ name, name ∈ sources.flatMap compiler.uses ∨
    name ∈ state.taken.flatMap (shippedUses compiler) → name ∈ ORDER →
    name ∈ state.names.known ∨ name ∈ state.names.wanted

namespace Shipping.Right

variable {sources : List String} {state : Shipping}

theorem start (sources : List String) :
    Shipping.Right compiler sources ⟨Names.readAll compiler sources, []⟩ := by
  refine ⟨List.nodup_nil, ?_, ?_, ?_, ?_⟩
  · intro name absent
    exact absurd absent List.not_mem_nil
  · intro name
    rw [Names.mem_readAll]
    simp
  · intro name wanted
    rw [Names.wanted_readAll] at wanted
    exact Or.inl wanted
  · rintro name (wanted | absent) listed
    · rw [Names.wanted_readAll]
      exact Or.inr wanted
    · simp at absent

/-- What a round takes. -/
theorem mem_taken (right : Shipping.Right compiler sources state) :
    name ∈ (takeShipped compiler state).1.taken ↔ name ∈ state.taken ∨
      (name ∈ state.names.wanted ∧ name ∈ ORDER ∧ ¬ Declared compiler sources name) := by
  rw [takeShipped, mem_takeAll, right.known]
  constructor
  · rintro (old | ⟨wanted, listed, fresh⟩)
    · exact Or.inl old
    · exact Or.inr ⟨wanted, listed, fun declared => fresh (Or.inl declared)⟩
  · rintro (old | ⟨wanted, listed, outside⟩)
    · exact Or.inl old
    · by_cases old : name ∈ state.taken
      · exact Or.inl old
      · exact Or.inr ⟨wanted, listed, fun known => known.elim outside old⟩

theorem due_taken (right : Shipping.Right compiler sources state)
    (present : name ∈ (takeShipped compiler state).1.taken) : Due compiler sources name := by
  rcases right.mem_taken.1 present with old | ⟨wanted, listed, outside⟩
  · exact right.due name old
  · rcases right.wanted name wanted with here | there
    · rcases List.mem_flatMap.1 here with ⟨text, given, uses⟩
      exact .wanted given uses listed outside
    · rcases List.mem_flatMap.1 there with ⟨module_, took, uses⟩
      exact .imported (right.due module_ took) uses outside

/-- What a round takes, it takes after what was there. -/
theorem taken_append (compiler : Compiler) (state : Shipping) : ∃ more,
    (takeShipped compiler state).1.taken = state.taken ++ more ∧
      (takeShipped compiler state).1.names =
        more.foldl (Names.readShipped compiler) ⟨state.names.known, []⟩ := by
  have more : state.taken <+: state.names.wanted.foldl (takeOne state.names.known) state.taken :=
    prefix_takeAll
  rcases more with ⟨more, taken⟩
  refine ⟨more, taken.symm, ?_⟩
  rw [takeShipped, ← taken, List.drop_left]

theorem round (right : Shipping.Right compiler sources state) :
    Shipping.Right compiler sources (takeShipped compiler state).1 := by
  rcases taken_append compiler state with ⟨more, taken, names⟩
  have listed : ∀ name ∈ more, name ∈ ORDER := by
    intro name present
    have took : name ∈ (takeShipped compiler state).1.taken := by
      rw [taken]
      exact List.mem_append_right _ present
    exact (right.due_taken took).listed
  have read := @Names.read_all_shipped compiler ⟨state.names.known, []⟩ more listed
  refine ⟨takeAll_nodup right.unique, fun name => right.due_taken, ?_, ?_, ?_⟩
  · intro name
    rw [names, read.1, taken, List.mem_append, right.known, or_assoc]
  · intro name wanted
    rw [names, read.2, List.nil_append] at wanted
    rw [taken, List.flatMap_append]
    exact Or.inr (List.mem_append_right _ wanted)
  · intro name imported order
    rw [taken, List.flatMap_append, List.mem_append, ← or_assoc] at imported
    rw [names, read.1, read.2, List.nil_append]
    rcases imported with old | new
    · rcases right.closed name old order with known | wanted
      · exact Or.inl (Or.inl known)
      · by_cases declared : Declared compiler sources name
        · exact Or.inl (Or.inl ((right.known name).2 (Or.inl declared)))
        · have present := right.mem_taken.2 (Or.inr ⟨wanted, order, declared⟩)
          rw [taken, List.mem_append] at present
          exact Or.inl (present.imp_left fun old => (right.known name).2 (Or.inr old))
    · exact Or.inr new

/-- A round that takes nothing is the last one. -/
theorem whole (right : Shipping.Right compiler sources state)
    (last : (takeShipped compiler state).2 = false) (due : Due compiler sources name) :
    name ∈ (takeShipped compiler state).1.taken := by
  rcases taken_append compiler state with ⟨more, taken, names⟩
  have none_ : more = [] := by
    have short : ¬ state.taken.length < (takeShipped compiler state).1.taken.length :=
      of_decide_eq_false last
    rw [taken, List.length_append] at short
    exact List.length_eq_zero_iff.1 (by omega)
  have next := right.round
  have settled : ∀ one, one ∈ sources.flatMap compiler.uses ∨
      one ∈ (takeShipped compiler state).1.taken.flatMap (shippedUses compiler) →
      one ∈ ORDER → ¬ Declared compiler sources one →
      one ∈ (takeShipped compiler state).1.taken := by
    intro one imported listed outside
    rcases next.closed one imported listed with known | wanted
    · exact ((next.known one).1 known).resolve_left outside
    · rw [names, none_] at wanted
      exact absurd wanted List.not_mem_nil
  induction due with
  | wanted given uses listed outside =>
      exact settled _ (Or.inl (List.mem_flatMap.2 ⟨_, given, uses⟩)) listed outside
  | imported due uses outside ih =>
      exact settled _ (Or.inr (List.mem_flatMap.2 ⟨_, ih, uses⟩))
        (uses_listed due.listed uses) outside

theorem rounds_right {rounds : Nat} (right : Shipping.Right compiler sources state)
    (ends : takeRounds compiler rounds state = some taken) :
    taken.Nodup ∧ ∀ name, name ∈ taken ↔ Due compiler sources name := by
  induction rounds generalizing state with
  | zero => exact absurd ends.symm (Option.some_ne_none taken)
  | succ rounds ih =>
      rw [takeRounds] at ends
      rcases round : takeShipped compiler state with ⟨next, again⟩
      have after := right.round
      rw [round] at ends after
      cases again with
      | true => exact ih after ends
      | false =>
          cases ends
          have last : (takeShipped compiler state).2 = false := by rw [round]
          refine ⟨after.unique, fun name => ⟨after.due name, fun due => ?_⟩⟩
          have present := right.whole last due
          rw [round] at present
          exact present

/-- Each round but the last takes one of the modules that ship. -/
theorem rounds_end (left : Nat) (right : Shipping.Right compiler sources state)
    (room : ORDER.length < state.taken.length + left) :
    ∃ taken, takeRounds compiler left state = some taken := by
  induction left generalizing state with
  | zero =>
      have small := (right.unique.subperm fun name present =>
        (right.due name present).listed).length_le
      exact absurd room (Nat.not_lt.2 small)
  | succ left ih =>
      rw [takeRounds]
      rcases round : takeShipped compiler state with ⟨next, again⟩
      cases again with
      | false => exact ⟨next.taken, rfl⟩
      | true =>
          have after := right.round
          have grows : (takeShipped compiler state).2 = true := by rw [round]
          have longer : state.taken.length < (takeShipped compiler state).1.taken.length :=
            of_decide_eq_true grows
          rw [round] at after longer
          apply ih after
          show ORDER.length < next.taken.length + left
          have shorter : state.taken.length < next.taken.length := longer
          omega

end Shipping.Right

/-- The modules that are taken are the ones that are due, each once. -/
theorem shippedFor_right {rounds : Nat} {sources : List String}
    (ends : shippedFor compiler rounds sources = some taken) :
    taken.Nodup ∧ ∀ name, name ∈ taken ↔ Due compiler sources name :=
  (Shipping.Right.start sources).rounds_right ends

theorem shippedFor_ends (sources : List String) :
    ∃ taken, shippedFor compiler (ORDER.length + 1) sources = some taken := by
  apply (Shipping.Right.start sources).rounds_end
  rw [List.length_nil, Nat.zero_add]
  exact Nat.lt_succ_self _

end Shipped

end Deed.Driver
