import Deed.Codegen.Collected

/-!
# Everything a body refers to was collected

No body is refused for something that nothing collected, as long as everything it asks for in
what is folded into a hash is asked for elsewhere too: the walk does not go there.  The
functions of the backend stand where the bodies were told they would.
-/

namespace Deed.Codegen

open Deed.Library
open Deed.Wasm Deed.Mir Deed.Runtime

variable {lowercase : String → String} {written : Ty → String} {program : Program}
  {collected : Collected}

/-- A refusal for something that nothing collected. -/
def Missing (why : Unsupported) : Prop :=
  (∃ helper, why.what = "\x60" ++ helperName helper ++
    "\x60, which nothing collected before the bodies were compiled") ∨
  (∃ name, why.what = "a call to \x60" ++ name ++ "\x60, which nothing imported") ∨
  why.what = "comparing two values of a shape nothing collected" ∨
  why.what = "hashing a shape nothing collected"

/-- What a body asks for. -/
def bodyAsks (lowercase : String → String) (program : Program) (function : Function) :
    List Asked :=
  asksBlock program function
    (fun effect operation =>
      imports lowercase program (operationName lowercase program effect operation))
    false function.body

/-- No body is refused for something that nothing collected. -/
def NothingMissing (lowercase : String → String) (collected : Collected) (program : Program) :
    Prop :=
  ∀ function ∈ program.functions, ∀ drafted why later,
    (collected.builder program lowercase function).block function.body drafted =
      some (.error why, later) → ¬ Missing why

/-- Every operation that a body performs, and every effect that it installs a handler of, was
counted to tell which operations escape. -/
def Counted (lowercase : String → String) (program : Program) : Prop :=
  ∀ function ∈ program.functions, ∀ entry ∈ bodyAsks lowercase program function,
    (∀ effect operation, entry.ask = .performs effect operation →
      (effect, operation) ∈ performed program) ∧
    ∀ effect, entry.ask = .installs effect → effect ∈ installed program

/-- Something compiled stands in a module at an index. -/
def StandsAt (module : Module) (index : UInt32) (compiled : Compiled) : Prop :=
  ∃ position func, module.funcs[position]? = some func ∧
    index = .ofNat (module.imports.length + position) ∧
    func.locals = compiled.1 ∧ func.body = compiled.2

/-- The functions of the backend stand where the bodies were told. -/
structure Placed (collected : Collected) (program : Program) (module : Module) : Prop where
  helpers : ∀ helper index, collected.whereHelpers program helper = some index →
    ∃ place, StandsAt module index (helper.compile
      ⟨fun called => (collected.whereHelpers program called).getD 0, place⟩)
  equals : ∀ entry ∈ collected.whereEquals program, StandsAt module entry.2
    (Equality.compile program entry.1 ⟨collected.whereEquals program,
      (collected.whereHelpers program .sameText).getD 0⟩)
  hashes : ∀ entry ∈ collected.whereHashes program, StandsAt module entry.2
    (Hashing.compile program entry.1 ⟨collected.whereHashes program,
      (collected.whereHelpers program .hashedText).getD 0⟩)

/-- Everything a program's bodies refer to was collected, and is where they refer to. -/
def Supplied (lowercase : String → String) (written : Ty → String) (program : Program) : Prop :=
  ∃ collected, collect lowercase program = some collected ∧
    NothingMissing lowercase collected program ∧ Counted lowercase program ∧
    ∀ module, compile lowercase written program = some (.ok module) →
      Placed collected program module

/-! ## What is asked for where the walk goes -/

theorem wanted_of_operator {function : Function} {op : BinaryOp} {left right : Expr}
    {span : Ast.Span} (visit : (function, Expr.binary op left right span) ∈ visits program)
    {ask : Ask} (asks : ask ∈ operatorAsks op (tyIn program function left)) :
    ask.IsRefused ∨ Wanted lowercase program ask := by
  have called (helper : Helper)
      (calls : helperOfBinary program (function, .binary op left right span) = some helper)
      (same : ask = .helper helper) : ask.IsRefused ∨ Wanted lowercase program ask := by
    rw [same]
    exact Or.inr (Needs.operator visit calls)
  have equality (equal : op = .eq ∨ op = .ne)
      (listed : ask ∈ operatorAsks .eq (tyIn program function left)) :
      ask.IsRefused ∨ Wanted lowercase program ask := by
    rw [operatorAsks] at listed
    split at listed
    · next text =>
        apply called .sameText _ (List.mem_singleton.1 listed)
        rcases equal with rfl | rfl <;> exact if_pos text
    · split at listed
      · next walks =>
          rw [List.mem_singleton.1 listed]
          exact Or.inr (Compares.operand visit equal walks)
      · split at listed
        · rw [List.mem_singleton.1 listed]
          exact Or.inl trivial
        · exact absurd listed List.not_mem_nil
  cases op
  case concatStr => exact called _ rfl (List.mem_singleton.1 asks)
  case ltStr => exact called _ rfl (List.mem_singleton.1 asks)
  case leStr => exact called _ rfl (List.mem_singleton.1 asks)
  case gtStr => exact called _ rfl (List.mem_singleton.1 asks)
  case geStr => exact called _ rfl (List.mem_singleton.1 asks)
  case eq => exact equality (Or.inl rfl) asks
  case ne => exact equality (Or.inr rfl) asks
  all_goals exact absurd asks List.not_mem_nil

theorem wanted_of_hash {function : Function} {value : Expr} {ty : Ty}
    (visit : (function, Expr.hashed value ty) ∈ visits program) {ask : Ask}
    (asks : ask ∈ hashAsks ty) : ask.IsRefused ∨ Wanted lowercase program ask := by
  rw [hashAsks] at asks
  split at asks
  · next text =>
      rw [text] at visit
      rw [List.mem_singleton.1 asks]
      exact Or.inr (Needs.hashedText visit)
  · split at asks
    · next walks =>
        rw [List.mem_singleton.1 asks]
        exact Or.inr (Folds.operand visit walks)
    · split at asks
      · rw [List.mem_singleton.1 asks]
        exact Or.inl trivial
      · exact absurd asks List.not_mem_nil

/-- Whatever an expression that the walk goes to asks for itself is refused or wanted. -/
theorem wanted_of_own {function : Function} {node : Expr}
    (visit : (function, node) ∈ visits program) {ask : Ask}
    (own : ask ∈ ownAsks program function node) :
    ask.IsRefused ∨ Wanted lowercase program ask := by
  cases node with
  | binary op left right span => exact wanted_of_operator visit own
  | callIndirect callee args ret span =>
      rw [List.mem_singleton.1 own]
      exact Or.inr (Declares.reached visit rfl)
  | install effect state operations body ty =>
      rw [List.mem_singleton.1 own]
      exact Or.inr (List.any_eq_true.2 ⟨_, visit, beq_self_eq_true effect⟩)
  | perform effect operation args ret =>
      rcases List.mem_cons.1 own with rfl | calls
      · exact Or.inr ⟨function, args, ret, visit⟩
      · rw [List.mem_singleton.1 calls]
        exact Or.inr (Declares.reached visit rfl)
  | host name args ret =>
      rw [List.mem_singleton.1 own]
      exact Or.inr (List.any_eq_true.2 ⟨_, visit, beq_self_eq_true _⟩)
  | make layout variant fields =>
      rw [List.mem_singleton.1 own]
      exact Or.inr Needs.memory
  | list element items =>
      rw [List.mem_singleton.1 own]
      exact Or.inr Needs.memory
  | hashed value ty => exact wanted_of_hash visit own
  | runtime name args ret =>
      rw [ownAsks] at own
      cases named : RuntimeName.helper name with
      | none =>
          rw [named] at own
          rw [List.mem_singleton.1 own]
          exact Or.inl trivial
      | some helper =>
          rw [named] at own
          rw [List.mem_singleton.1 own]
          exact Or.inr (Needs.runtime visit named)
  | _ => exact absurd own List.not_mem_nil

theorem wanted_of_visible {function : Function} (declared : function ∈ program.functions)
    {entry : Asked} (present : entry ∈ bodyAsks lowercase program function)
    (visible : entry.hidden = false) :
    entry.ask.IsRefused ∨ Wanted lowercase program entry.ask := by
  rcases seen_block program function _ false function.body entry present with
    hidden | ⟨-, refused | ⟨node, walked, own⟩⟩
  · exact absurd (hidden.symm.trans visible) Bool.false_ne_true.symm
  · exact Or.inl refused
  · exact wanted_of_own (mem_visits.2 ⟨declared, walked⟩) own

/-! ## Which refusals say that something was not collected -/

/-- How each of these refusals starts. -/
theorem missing_opens {why : Unsupported} (missing : Missing why) :
    ∃ opening ∈ ["\x60", "a call to \x60", "comparing two values of", "hashing a shape"],
      opening.toList <+: why.what.toList := by
  rcases missing with ⟨helper, same⟩ | ⟨name, same⟩ | same | same
  · refine ⟨_, List.mem_cons_self, ?_⟩
    rw [same, String.toList_append, String.toList_append, List.append_assoc]
    exact List.prefix_append _ _
  · refine ⟨_, List.mem_cons_of_mem _ List.mem_cons_self, ?_⟩
    rw [same, String.toList_append, String.toList_append, List.append_assoc]
    exact List.prefix_append _ _
  · refine ⟨"comparing two values of", by decide, ?_⟩
    rw [same]
    decide
  · refine ⟨"hashing a shape", by decide, ?_⟩
    rw [same]
    decide

/-- A refusal that starts in another way is not one of them. -/
theorem not_missing {function what : String} (opening : String)
    (opens : opening.toList <+: what.toList)
    (apart : ∀ other ∈ ["\x60", "a call to \x60", "comparing two values of", "hashing a shape"],
      ¬ opening.toList <+: other.toList ∧ ¬ other.toList <+: opening.toList) :
    ¬ Missing ⟨function, what⟩ := by
  intro missing
  rcases missing_opens missing with ⟨other, listed, starts⟩
  rcases List.prefix_or_prefix_of_prefix opens starts with shorter | longer
  · exact (apart other listed).1 shorter
  · exact (apart other listed).2 longer

theorem missing_iff {builder : Builder} {ask : Ask} {what : String}
    (complains : builder.complaint ask = some what) :
    Missing ⟨builder.function.name, what⟩ ↔ ask.IsSupply := by
  have what_of {α : Type} {found : Option α} {text : String}
      (complains : Builder.complaint.absent found text = some what) : what = text := by
    rw [Builder.complaint.absent] at complains
    split at complains
    · cases complains
    · exact (Option.some.inj complains).symm
  cases ask with
  | helper helper => exact iff_of_true (Or.inl ⟨helper, what_of complains⟩) trivial
  | comparison shape => exact iff_of_true (Or.inr (Or.inr (Or.inl (what_of complains)))) trivial
  | fold shape => exact iff_of_true (Or.inr (Or.inr (Or.inr (what_of complains)))) trivial
  | host name => exact iff_of_true (Or.inr (Or.inl ⟨name, what_of complains⟩)) trivial
  | signature signature =>
      rw [what_of complains]
      exact iff_of_false (not_missing "a call to a shape" (by decide) (by decide)) id
  | performs effect operation => cases complains
  | installs effect => cases complains
  | refused why =>
      rw [← Option.some.inj complains]
      refine iff_of_false ?_ id
      cases why with
      | comparing => exact not_missing "comparing two values that" (by decide) (by decide)
      | hashing => exact not_missing "hashing a value" (by decide) (by decide)
      | argument => exact not_missing "an argument" (by decide) (by decide)
      | runtime name =>
          refine not_missing "the runtime function \x60" ?_ (by decide)
          show _ <+: ("the runtime function \x60" ++ RuntimeName.text name ++ "\x60").toList
          rw [String.toList_append, String.toList_append, List.append_assoc]
          exact List.prefix_append _ _

/-! ## Bodies -/

/-- Every hidden thing that a body of the program asks for, before anything it is refused
for, is asked for elsewhere, and so is everything hidden that is only counted. -/
def Covered (lowercase : String → String) (program : Program) : Prop :=
  ∀ function ∈ program.functions,
    (∀ before entry after, bodyAsks lowercase program function = before ++ entry :: after →
      (∀ earlier ∈ before, Wanted lowercase program earlier.ask) →
      entry.hidden = true → entry.ask.IsSupply → Wanted lowercase program entry.ask) ∧
    ∀ entry ∈ bodyAsks lowercase program function,
      entry.hidden = true → entry.ask.IsCounted → Wanted lowercase program entry.ask

theorem Ask.IsSupply.not_counted {ask : Ask} (supply : ask.IsSupply) : ¬ ask.IsCounted := by
  intro counted
  cases ask <;> first | exact supply | exact counted

theorem Ask.IsRefused.not_asked {ask : Ask} (refused : ask.IsRefused) :
    ¬ ask.IsSupply ∧ ¬ ask.IsCounted := by
  cases ask <;> first | exact refused.elim | exact ⟨id, id⟩

theorem bodyAsks_eq (found : collect lowercase program = some collected) (function : Function) :
    bodyAsks lowercase program function =
      asksBlock program function (collected.builder program lowercase function).offers false
        function.body := by
  rcases collect_cases found with ⟨module, -⟩
  rcases declared_holds lowercase program with ⟨names, -⟩
  have offers : (fun effect operation =>
      imports lowercase program (operationName lowercase program effect operation)) =
      (collected.builder program lowercase function).offers := by
    funext effect operation
    rw [Bool.eq_iff_iff, ← names, Builder.offers, Builder.hostImport, Option.isSome_map,
      List.findIdx?_isSome, List.any_eq_true, List.mem_map, ← module]
    apply exists_congr
    intro entry
    rw [Bool.and_eq_true_iff, beq_iff_eq, beq_iff_eq]
    exact and_congr_right fun _ => @Prod.ext_iff _ _ (Import.named entry) _
  rw [bodyAsks, offers]

/-- Whatever state a body is compiled in, it is refused for the first thing it asks for that is
not there, if there is one. -/
theorem refuses_body (found : collect lowercase program = some collected) (function : Function) :
    Action.Refuses ((collected.builder program lowercase function).complains
        (bodyAsks lowercase program function))
      ((collected.builder program lowercase function).block function.body) := by
  rw [bodyAsks_eq found]
  exact answers_block (collected.builder program lowercase function) false function.body

theorem counted_iff (ask : Ask) :
    ((∀ effect operation, ask = .performs effect operation →
        (effect, operation) ∈ performed program) ∧
      ∀ effect, ask = .installs effect → effect ∈ installed program) ↔
    (ask.IsCounted → Wanted lowercase program ask) := by
  cases ask with
  | performs effect operation =>
      constructor
      · exact fun counted _ => (mem_performed _ _).1 (counted.1 _ _ rfl)
      · intro wanted
        refine ⟨?_, fun _ impossible => (nomatch impossible)⟩
        rintro _ _ ⟨rfl, rfl⟩
        exact (mem_performed _ _).2 (wanted trivial)
  | installs effect =>
      constructor
      · exact fun counted _ => (mem_installed _).1 (counted.2 _ rfl)
      · intro wanted
        refine ⟨fun _ _ impossible => (nomatch impossible), ?_⟩
        rintro _ ⟨rfl⟩
        exact (mem_installed _).2 (wanted trivial)
  | helper _ | comparison _ | fold _ | host _ | signature _ | refused _ =>
      refine iff_of_true ⟨?_, ?_⟩ fun impossible => False.elim impossible
      · exact fun _ _ impossible => (nomatch impossible)
      · exact fun _ impossible => (nomatch impossible)

/-- A body is refused for something that nothing collected exactly if the first thing it asks
for that is not there is of that kind. -/
theorem covered_iff (found : collect lowercase program = some collected) :
    NothingMissing lowercase collected program ∧ Counted lowercase program ↔
      Covered lowercase program := by
  constructor
  · rintro ⟨nothing, counted⟩ function declared
    have wanted (entry : Asked) (present : entry ∈ bodyAsks lowercase program function) :=
      (@counted_iff lowercase program entry.ask).1 (counted function declared entry present)
    refine ⟨?_, fun entry present _ => wanted entry present⟩
    intro before entry after asked earlier hidden supply
    by_contra unwanted
    let builder := collected.builder program lowercase function
    have complaint : builder.complaint entry.ask ≠ none := by
      rw [Ne, complaint_iff found]
      exact not_or.2 ⟨unwanted, supply.not_counted⟩
    rcases Option.ne_none_iff_exists'.1 complaint with ⟨what, complains⟩
    have first : builder.complains (bodyAsks lowercase program function) =
        some ⟨function.name, what⟩ := by
      apply List.findSome?_eq_some_iff.2
      refine ⟨before, entry, after, asked, ?_, ?_⟩
      · rw [complains]
        rfl
      · intro other listed
        rw [Option.map_eq_none_iff, complaint_iff found]
        exact Or.inl (earlier other listed)
    have refuses := refuses_body found function
    rw [first] at refuses
    rcases Action.Refuses.errors refuses ⟨⟨0, [], []⟩, [], []⟩ with ⟨later, ran⟩
    exact nothing function declared _ _ later ran ((missing_iff complains).2 supply)
  · intro covered
    have shown (function : Function) (declared : function ∈ program.functions) (entry : Asked)
        (present : entry ∈ bodyAsks lowercase program function) (visible : entry.hidden = false)
        (asks : entry.ask.IsSupply ∨ entry.ask.IsCounted) : Wanted lowercase program entry.ask := by
      rcases wanted_of_visible declared present visible with refused | wanted
      · exact (asks.elim refused.not_asked.1 refused.not_asked.2).elim
      · exact wanted
    have counts (function : Function) (declared : function ∈ program.functions) (entry : Asked)
        (present : entry ∈ bodyAsks lowercase program function) (counted : entry.ask.IsCounted) :
        Wanted lowercase program entry.ask := by
      cases hidden : entry.hidden with
      | true => exact (covered function declared).2 entry present hidden counted
      | false => exact shown function declared entry present hidden (Or.inr counted)
    refine ⟨?_, fun function declared entry present => (counted_iff entry.ask).2
      (counts function declared entry present)⟩
    intro function declared drafted why later ran missing
    have first := Action.Refuses.error (refuses_body found function) ran
    rcases List.findSome?_eq_some_iff.1 first with ⟨before, entry, after, asked, complains, earlier⟩
    rcases Option.map_eq_some_iff.1 complains with ⟨what, complaint, rfl⟩
    have supply := (missing_iff complaint).1 missing
    have present : entry ∈ bodyAsks lowercase program function := by
      rw [asked]
      exact List.mem_append_right _ List.mem_cons_self
    have unwanted : ¬ Wanted lowercase program entry.ask := by
      intro wanted
      rw [(complaint_iff found function entry.ask).2 (Or.inl wanted)] at complaint
      cases complaint
    cases hidden : entry.hidden with
    | false => exact unwanted (shown function declared entry present hidden (Or.inl supply))
    | true =>
        refine unwanted ((covered function declared).1 before entry after asked ?_ hidden supply)
        intro other listed
        have silent := Option.map_eq_none_iff.1 (earlier other listed)
        rcases (complaint_iff found function other.ask).1 silent with wanted | counted
        · exact wanted
        · apply counts function declared other _ counted
          rw [asked]
          exact List.mem_append_left _ listed

/-! ## The module -/

/-- A step that adds one function of a kind, and imports nothing. -/
def Adds (kind : Func → Prop) (step : Action Assembled Unsupported Unit) : Prop :=
  ∀ ⦃state later⦄, step state = some (.ok (), later) →
    ∃ func, later.module.funcs = state.module.funcs ++ [func] ∧ kind func ∧
      later.module.imports = state.module.imports

theorem each_adds {α : Type} {kind : α → Func → Prop}
    {step : α → Action Assembled Unsupported Unit} (adds : ∀ element, Adds (kind element)
      (step element)) (elements : List α) {state later : Assembled}
    (ran : each step elements state = some (.ok (), later)) :
    ∃ added, later.module.funcs = state.module.funcs ++ added ∧
      List.Forall₂ kind elements added ∧ later.module.imports = state.module.imports := by
  induction elements generalizing state with
  | nil =>
      cases (Prod.mk.inj (Option.some.inj ran)).2
      exact ⟨[], (List.append_nil _).symm, List.Forall₂.nil, rfl⟩
  | cons first rest ih =>
      rcases Action.ok_of_bind ran with ⟨_, between, one, more⟩
      rcases adds first one with ⟨func, funcs, its, imports⟩
      rcases ih more with ⟨added, all, kinds, imports'⟩
      refine ⟨func :: added, ?_, List.Forall₂.cons its kinds, imports'.trans imports⟩
      rw [all, funcs, List.append_assoc]
      rfl

theorem internTable_rest (module : Module) (func : UInt32) :
    (internTable module func).funcs = module.funcs ∧
      (internTable module func).imports = module.imports := by
  rw [internTable]
  split <;> exact ⟨rfl, rfl⟩

theorem compileFunction_adds (function : Function) :
    Adds (fun _ => True) (compileFunction lowercase collected program function) := by
  intro state later ran
  rcases internType_rest state.module (signatureOf function) with ⟨imports, funcs⟩
  rw [compileFunction] at ran
  dsimp only at ran
  split at ran
  · cases ran
  · cases ran
  · next code drafted _ =>
      cases (Prod.mk.inj (Option.some.inj ran)).2
      refine ⟨⟨(internType state.module (signatureOf function)).1, drafted.extraLocals,
        code ++ [.return_]⟩, ?_, trivial, ?_⟩
      · exact (internTable_rest _ _).1.trans (congrArg (· ++ [_]) funcs)
      · exact (internTable_rest _ _).2.trans imports

theorem writeHelper_adds (helper : Helper) :
    Adds (fun func => ∃ place, (func.locals, func.body) = helper.compile
      ⟨fun called => (collected.whereHelpers program called).getD 0, place⟩)
      (writeHelper collected program helper) := by
  intro state later ran
  cases (Prod.mk.inj (Option.some.inj ran)).2
  rcases internType_rest state.module helper.signature with ⟨imports, funcs⟩
  let strings := (Helper.literals helper).foldl (fun strings text => (strings.place text).2)
    state.strings
  let compiled := helper.compile
    ⟨fun called => (collected.whereHelpers program called).getD 0,
      fun text => (strings.place text).1⟩
  refine ⟨⟨(internType state.module helper.signature).1, compiled.1, compiled.2⟩, ?_,
    ⟨fun text => (strings.place text).1, rfl⟩, imports⟩
  exact congrArg (· ++ [_]) funcs

theorem writeShape_adds (signature : FuncType) (compiled : List ValType × List Ins)
    (named : String) :
    Adds (fun func => (func.locals, func.body) = compiled)
      (writeShape signature compiled named) := by
  intro state later ran
  cases (Prod.mk.inj (Option.some.inj ran)).2
  rcases internType_rest state.module signature with ⟨imports, funcs⟩
  refine ⟨⟨(internType state.module signature).1, compiled.1, compiled.2⟩, ?_, rfl, imports⟩
  exact congrArg (· ++ [_]) funcs

/-- What is found among the functions that were added together stands as far behind those that
were there before. -/
theorem standsAt_of_found {compiled : Compiled} {module : Module} {before added after : List Func}
    {position start : Nat} {func : Func} (funcs : module.funcs = before ++ added ++ after)
    (found : added[position]? = some func)
    (starts : start = module.imports.length + before.length)
    (its : (func.locals, func.body) = compiled) :
    StandsAt module (.ofNat (start + position)) compiled := by
  have inside : position < added.length := (List.getElem?_eq_some_iff.1 found).1
  refine ⟨before.length + position, func, ?_, ?_, congrArg Prod.fst its, congrArg Prod.snd its⟩
  · rw [funcs, List.append_assoc, List.getElem?_append_right (Nat.le_add_right _ _),
      Nat.add_sub_cancel_left, List.getElem?_append_left inside, found]
  · rw [starts, Nat.add_assoc]

/-- What was added for an element stands as far behind as the element does in its list. -/
theorem standsAt_of_added {α : Type} {kind : α → Func → Prop} {compiled : Compiled}
    {module : Module} {before added after : List Func} {elements : List α} {position : Nat}
    {element : α} {start : Nat} (funcs : module.funcs = before ++ added ++ after)
    (kinds : List.Forall₂ kind elements added) (found : elements[position]? = some element)
    (starts : start = module.imports.length + before.length)
    (its : ∀ func, kind element func → (func.locals, func.body) = compiled) :
    StandsAt module (.ofNat (start + position)) compiled := by
  rcases List.getElem?_eq_some_iff.1 found with ⟨inside, same⟩
  have inside' : position < added.length := kinds.length_eq ▸ inside
  have kind_ := kinds.get inside inside'
  rw [List.get_eq_getElem, same] at kind_
  exact standsAt_of_found funcs (List.getElem?_eq_getElem inside') starts (its _ kind_)

/-- What a compiled module is put together from. -/
theorem assemble_funcs (found : collect lowercase program = some collected) {module : Module}
    (compiles : compile lowercase written program = some (.ok module)) :
    ∃ bodies helpers equals hashes,
      module.funcs = bodies ++ helpers ++ equals ++ hashes ∧
      bodies.length = program.functions.length ∧
      module.imports.length = collected.shift ∧
      List.Forall₂ (fun helper func => ∃ place, (func.locals, func.body) = helper.compile
        ⟨fun called => (collected.whereHelpers program called).getD 0, place⟩)
        collected.helpers helpers ∧
      List.Forall₂ (fun shape func => (func.locals, func.body) = Equality.compile program shape
        ⟨collected.whereEquals program, (collected.whereHelpers program .sameText).getD 0⟩)
        collected.shapes equals ∧
      List.Forall₂ (fun shape func => (func.locals, func.body) = Hashing.compile program shape
        ⟨collected.whereHashes program, (collected.whereHelpers program .hashedText).getD 0⟩)
        collected.folded hashes := by
  rcases Option.bind_eq_some_iff.1 compiles with ⟨known, known_, compiles⟩
  rcases Option.bind_eq_some_iff.1 compiles with ⟨⟨ended, last⟩, ran, same⟩
  cases found.symm.trans known_
  cases same
  rcases Action.ok_of_bind ran with ⟨_, afterBodies, bodiesRan, ran⟩
  rcases Action.ok_of_bind ran with ⟨_, afterHelpers, helpersRan, ran⟩
  rcases Action.ok_of_bind ran with ⟨_, afterEquals, equalsRan, ran⟩
  rcases Action.ok_of_bind ran with ⟨_, afterHashes, hashesRan, ran⟩
  cases (Prod.mk.inj (Option.some.inj ran)).1
  rcases each_adds compileFunction_adds _ bodiesRan with ⟨bodies, funcs₁, kinds₁, imports₁⟩
  rcases each_adds writeHelper_adds _ helpersRan with ⟨helpers, funcs₂, kinds₂, imports₂⟩
  rcases each_adds (fun shape => writeShape_adds _ _ _) _ equalsRan with
    ⟨equals, funcs₃, kinds₃, imports₃⟩
  rcases each_adds (fun shape => writeShape_adds _ _ _) _ hashesRan with
    ⟨hashes, funcs₄, kinds₄, imports₄⟩
  rcases collect_cases found with ⟨module, -⟩
  rcases declared_holds lowercase program with ⟨-, -, none_⟩
  refine ⟨bodies, helpers, equals, hashes, ?_, kinds₁.length_eq.symm, ?_, kinds₂, kinds₃, kinds₄⟩
  · show afterHashes.module.funcs = _
    rw [funcs₄, funcs₃, funcs₂, funcs₁, module, none_, List.nil_append]
  · show afterHashes.module.imports.length = _
    rw [imports₄, imports₃, imports₂, imports₁]
    rfl

theorem placed_of_compile (found : collect lowercase program = some collected) {module : Module}
    (compiles : compile lowercase written program = some (.ok module)) :
    Placed collected program module := by
  rcases assemble_funcs found compiles with ⟨bodies, helpers, equals, hashes, funcs, count, shift,
    helperKinds, equalKinds, hashKinds⟩
  have helperCount := helperKinds.length_eq
  have equalCount := equalKinds.length_eq
  have starts : collected.base program = module.imports.length + bodies.length := by
    rw [shift, count]
    rfl
  refine ⟨?_, ?_, ?_⟩
  · intro helper index where_
    rcases Option.map_eq_some_iff.1 where_ with ⟨position, at_, rfl⟩
    rcases List.findIdx?_eq_some_iff_getElem.1 at_ with ⟨inside, same, -⟩
    have grouped := funcs.trans (List.append_assoc (bodies ++ helpers) equals hashes)
    have kind := (List.forall₂_iff_get.1 helperKinds).2 position inside (helperCount ▸ inside)
    rw [List.get_eq_getElem, List.get_eq_getElem, beq_iff_eq.1 same] at kind
    rcases kind with ⟨place, its⟩
    refine ⟨place, standsAt_of_found grouped ?_ starts its⟩
    exact List.getElem?_eq_getElem (helperCount ▸ inside)
  · rintro ⟨shape, index⟩ listed
    rcases List.mem_map.1 listed with ⟨⟨held, position⟩, at_, same⟩
    cases same
    have there := List.mem_zipIdx_iff_getElem?.1 at_
    refine standsAt_of_added funcs equalKinds there ?_ fun _ its => its
    rw [List.length_append, ← Nat.add_assoc, ← starts, ← helperCount]
    rfl
  · rintro ⟨shape, index⟩ listed
    rcases List.mem_map.1 listed with ⟨⟨held, position⟩, at_, same⟩
    cases same
    have there := List.mem_zipIdx_iff_getElem?.1 at_
    have grouped := funcs.trans (List.append_nil (bodies ++ helpers ++ equals ++ hashes)).symm
    refine standsAt_of_added grouped hashKinds there ?_ fun _ its => its
    rw [List.length_append, List.length_append, ← Nat.add_assoc, ← Nat.add_assoc, ← starts,
      ← helperCount, ← equalCount]
    rfl

theorem supplied_of_covered (lowercase : String → String) (written : Ty → String)
    (program : Program) (covered : Covered lowercase program) :
    Supplied lowercase written program := by
  rcases collect_ends lowercase program with ⟨collected, found⟩
  rcases (covered_iff found).2 covered with ⟨nothing, counted⟩
  exact ⟨collected, found, nothing, counted, fun _ => placed_of_compile found⟩

theorem covered_of_supplied {lowercase : String → String} {written : Ty → String}
    {program : Program} (supplied : Supplied lowercase written program) :
    Covered lowercase program := by
  rcases supplied with ⟨collected, found, nothing, counted, -⟩
  exact (covered_iff found).1 ⟨nothing, counted⟩

/-- Everything the bodies of a program refer to was collected exactly if what they ask for in
what is folded into a hash, before anything they are refused for, is asked for elsewhere. -/
theorem supplied_iff (lowercase : String → String) (written : Ty → String) (program : Program) :
    Supplied lowercase written program ↔ Covered lowercase program :=
  ⟨covered_of_supplied, supplied_of_covered lowercase written program⟩

theorem uncounted (layout : Layout) (listed : layout ∈ []) : layout.variants.length < 2 ^ 63 :=
  absurd listed List.not_mem_nil

/-- The hash of two strings joined, in a program that joins no others. -/
def hashesJoined : Program where
  layouts := []
  effects := []
  functions := [⟨"f", [.str, .str], .int, [.str, .str],
    .of (.hashed (.binary .concatStr (.local_ 0) (.local_ 1) ⟨0, 0⟩) .str)⟩]
  counted := uncounted

/-- What compiling the one body of that program is refused for. -/
def hashesJoinedRefusal : Option (Option Unsupported) := do
  let collected ← collect String.toLower hashesJoined
  let function ← hashesJoined.functions.head?
  let ended ← (collected.builder hashesJoined String.toLower function).block function.body
    ⟨⟨0, [], []⟩, [], []⟩
  some (Action.refusal ended.1)

/-- Joining is what nothing collected. -/
theorem hashesJoined_unsupplied :
    ¬ Supplied String.toLower (fun _ => "") hashesJoined := by
  rintro ⟨collected, found, nothing, -⟩
  have refused : hashesJoinedRefusal = some (some ⟨"f",
      "\x60deed_rt_str_concat\x60, which nothing collected before the bodies were compiled"⟩) := by
    decide
  rw [hashesJoinedRefusal] at refused
  rcases Option.bind_eq_some_iff.1 refused with ⟨known, found', refused⟩
  cases found.symm.trans found'
  rcases Option.bind_eq_some_iff.1 refused with ⟨function, declared, refused⟩
  cases declared
  rcases Option.bind_eq_some_iff.1 refused with ⟨⟨ended, later⟩, ran, same⟩
  cases ended with
  | ok code => cases same
  | error why =>
      cases same
      exact nothing _ List.mem_cons_self _ _ later ran (Or.inl ⟨.joinedText, rfl⟩)

end Deed.Codegen
