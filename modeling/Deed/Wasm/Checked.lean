import Deed.Wasm.Typing
import Deed.Wasm.Validate

/-!
# What the checker accepts is what is typed

After some instructions, the checker's stack stands for exactly the stack types that the
typing rules lead to from those its stack stood for before; where it stops, they lead to
none.
-/

namespace Deed.Wasm

/-- The stack types that a part of the checker's stack above a frame's height stands for:
that part, and under it anything where the rest of the frame cannot be reached. -/
def Holds (unreachable : Bool) (top stack : List ValType) : Prop :=
  ∃ under, stack = top ++ under ∧ (unreachable = true ∨ under = [])

/-- A frame in a checker, without the part of the stack above its height. -/
structure Place where
  labelTypes : List ValType
  endTypes : List ValType
  outer : List Frame
  base : List Slot

def Place.frame (place : Place) (unreachable : Bool) : Frame :=
  ⟨place.labelTypes, place.endTypes, place.base.length, unreachable⟩

/-- The checker in a frame, with some types above the frame's height. -/
def Place.checker (place : Place) (unreachable : Bool) (top : List ValType) : Checker :=
  ⟨top.map .val ++ place.base, place.frame unreachable :: place.outer⟩

/-- How a step of the checker compares with a relation between stack types. -/
inductive Agrees (place : Place) (unreachable : Bool) (top : List ValType)
    (relation : List ValType → List ValType → Prop) : Check Checker → Prop
  | ok {later : Bool} {left : List ValType} :
      (∀ after, Holds later left after ↔ ∃ before, Holds unreachable top before ∧
        relation before after) →
      Agrees place unreachable top relation (.ok (place.checker later left))
  | invalid {why : String} :
      (∀ before after, Holds unreachable top before → ¬relation before after) →
      Agrees place unreachable top relation (.error (.invalid why))

variable {place : Place} {unreachable : Bool} {top : List ValType}
  {relation again : List ValType → List ValType → Prop} {checked : Check Checker}

/-! ## Steps in a row -/

theorem Agrees.congr (agrees : Agrees place unreachable top relation checked)
    (same : ∀ before after, relation before after ↔ again before after) :
    Agrees place unreachable top again checked := by
  cases agrees with
  | ok image =>
      refine .ok fun after => (image after).trans ?_
      simp only [same]
  | invalid none =>
      refine .invalid fun before after holds leads => ?_
      exact none before after holds ((same before after).mpr leads)

theorem Agrees.bind {next : Checker → Check Checker}
    (agrees : Agrees place unreachable top relation checked)
    (then_ : ∀ later left, Agrees place later left again (next (place.checker later left))) :
    Agrees place unreachable top (Relation.Comp relation again) (checked >>= next) := by
  cases agrees with
  | @ok later left image =>
      show Agrees _ _ _ _ (next (place.checker later left))
      generalize next (place.checker later left) = result, then_ later left = agrees
      cases agrees with
      | ok image_ =>
          refine .ok fun after => (image_ after).trans ?_
          constructor
          · rintro ⟨middle, holds, leads⟩
            rcases (image middle).mp holds with ⟨before, holds, first⟩
            exact ⟨before, holds, middle, first, leads⟩
          · rintro ⟨before, holds, middle, first, leads⟩
            exact ⟨middle, (image middle).mpr ⟨before, holds, first⟩, leads⟩
      | invalid none =>
          refine .invalid ?_
          rintro before after holds ⟨middle, first, leads⟩
          exact none middle after ((image middle).mpr ⟨before, holds, first⟩) leads
  | invalid none =>
      refine .invalid ?_
      rintro before after holds ⟨middle, first, -⟩
      exact none before middle holds first

/-! ## The stack -/

theorem holds_cons {ty first : ValType} {rest : List ValType} :
    Holds unreachable (first :: top) (ty :: rest) ↔ first = ty ∧ Holds unreachable top rest := by
  constructor
  · rintro ⟨under, same, free⟩
    rcases List.cons_eq_cons.mp same with ⟨rfl, rfl⟩
    exact ⟨rfl, under, rfl, free⟩
  · rintro ⟨rfl, under, rfl, free⟩
    exact ⟨under, rfl, free⟩

theorem holds_anything {stack : List ValType} : Holds true [] stack :=
  ⟨stack, rfl, Or.inl rfl⟩

theorem holds_nothing {stack : List ValType} : Holds false [] stack ↔ stack = [] := by
  constructor
  · rintro ⟨under, rfl, reachable | rfl⟩
    · exact absurd reachable Bool.false_ne_true
    · rfl
  · rintro rfl
    exact ⟨[], rfl, Or.inr rfl⟩

theorem holds_nil : Holds unreachable top [] ↔ top = [] := by
  constructor
  · rintro ⟨under, same, -⟩
    exact (List.append_eq_nil_iff.mp same.symm).1
  · rintro rfl
    exact ⟨[], rfl, Or.inr rfl⟩

theorem holds_append {types stack : List ValType} :
    Holds unreachable (types ++ top) (types ++ stack) ↔ Holds unreachable top stack := by
  induction types with
  | nil => rfl
  | cons ty types ih => exact holds_cons.trans ((and_iff_right rfl).trans ih)

theorem pushAll_checker {types : List ValType} :
    (place.checker unreachable top).pushAll types =
      place.checker unreachable (types.reverse ++ top) := by
  induction types generalizing top with
  | nil => rfl
  | cons ty types ih =>
      show (place.checker unreachable (ty :: top)).pushAll types = _
      rw [ih, List.reverse_cons, List.append_assoc]
      rfl

theorem pop_cons {ty : ValType} : (place.checker unreachable (ty :: top)).pop =
    .ok (.val ty, place.checker unreachable top) := by
  have above : ((place.checker unreachable (ty :: top)).stack.length = place.base.length) = False := by
    apply eq_false
    show (Slot.val ty :: (top.map Slot.val ++ place.base)).length ≠ _
    rw [List.length_cons, List.length_append]
    omega
  show (if (place.checker unreachable (ty :: top)).stack.length = place.base.length then _ else _) = _
  rw [if_neg (of_eq_false above)]
  rfl

theorem pop_unknown : (place.checker true []).pop = .ok (.unknown, place.checker true []) := by
  show (if place.base.length = place.base.length then _ else _) = _
  rw [if_pos rfl]
  rfl

theorem pop_empty : (place.checker false []).pop =
    .error (.invalid "an instruction wants a value this block does not have") := by
  show (if place.base.length = place.base.length then _ else _) = _
  rw [if_pos rfl]
  rfl

theorem agrees_drop : Agrees place unreachable top (fun before after => ∃ ty, before = ty :: after)
    ((place.checker unreachable top).pop >>= fun popped => pure popped.2) := by
  cases top with
  | cons ty top =>
      rw [pop_cons]
      refine .ok fun after => ?_
      constructor
      · intro holds
        exact ⟨ty :: after, holds_cons.mpr ⟨rfl, holds⟩, ty, rfl⟩
      · rintro ⟨_, holds, found, rfl⟩
        exact (holds_cons.mp holds).2
  | nil =>
      cases unreachable with
      | true =>
          rw [pop_unknown]
          exact .ok fun after => ⟨fun _ => ⟨.i32 :: after, holds_anything, .i32, rfl⟩,
            fun _ => holds_anything⟩
      | false =>
          rw [pop_empty]
          refine .invalid ?_
          rintro before after holds ⟨ty, rfl⟩
          exact absurd (holds_nothing.mp holds) (List.cons_ne_nil _ _)

theorem agrees_popExpect {ty : ValType} :
    Agrees place unreachable top (fun before after => before = ty :: after)
      ((place.checker unreachable top).popExpect ty) := by
  rw [Checker.popExpect]
  cases top with
  | cons found top =>
      rw [pop_cons]
      by_cases same : found = ty
      · rcases same with rfl
        show Agrees _ _ _ _ (if found = found then _ else _)
        rw [if_pos rfl]
        refine .ok fun after => ?_
        constructor
        · intro holds
          exact ⟨_, holds_cons.mpr ⟨rfl, holds⟩, rfl⟩
        · rintro ⟨_, holds, rfl⟩
          exact (holds_cons.mp holds).2
      · show Agrees _ _ _ _ (if found = ty then _ else _)
        rw [if_neg same]
        refine .invalid ?_
        rintro before after holds rfl
        exact same (holds_cons.mp holds).1
  | nil =>
      cases unreachable with
      | true =>
          rw [pop_unknown]
          exact .ok fun after => ⟨fun _ => ⟨ty :: after, holds_anything, rfl⟩,
            fun _ => holds_anything⟩
      | false =>
          rw [pop_empty]
          refine .invalid ?_
          rintro before after holds rfl
          exact absurd (holds_nothing.mp holds) (List.cons_ne_nil _ _)

theorem agrees_refl : Agrees place unreachable top (fun before after => before = after)
    (.ok (place.checker unreachable top)) :=
  .ok fun after => ⟨fun holds => ⟨after, holds, rfl⟩, fun ⟨_, holds, same⟩ => same ▸ holds⟩

theorem agrees_popAll {types : List ValType} :
    Agrees place unreachable top (fun before after => before = types.reverse ++ after)
      ((place.checker unreachable top).popAll types) := by
  rw [Checker.popAll]
  generalize types.reverse = types
  induction types generalizing unreachable top with
  | nil => exact agrees_refl
  | cons ty types ih =>
      rw [List.foldlM_cons]
      refine (agrees_popExpect.bind fun later left => ih).congr ?_
      intro before after
      constructor
      · rintro ⟨_, rfl, rfl⟩
        rfl
      · rintro rfl
        exact ⟨_, rfl, rfl⟩

theorem agrees_push {types : List ValType} :
    Agrees place unreachable top (fun before after => after = types.reverse ++ before)
      (.ok ((place.checker unreachable top).pushAll types)) := by
  rw [pushAll_checker]
  refine .ok fun after => ?_
  constructor
  · rintro ⟨under, rfl, free⟩
    exact ⟨top ++ under, ⟨under, rfl, free⟩, List.append_assoc _ _ _⟩
  · rintro ⟨before, holds, rfl⟩
    exact holds_append.mpr holds

/-- What takes some operands and leaves some results, over any stack. -/
def Over (operands results before after : List ValType) : Prop :=
  ∃ stack, before = operands ++ stack ∧ after = results ++ stack

theorem agrees_takes {operands results : List ValType} :
    Agrees place unreachable top (Over operands.reverse results.reverse)
      ((place.checker unreachable top).takes operands results) := by
  rw [Checker.takes]
  exact agrees_popAll.bind fun later left => agrees_push

theorem agrees_setUnreachable :
    Agrees place unreachable top (fun _ _ => True)
      (place.checker unreachable top).setUnreachable := by
  have cut : (top.map Slot.val ++ place.base).drop
      ((top.map Slot.val ++ place.base).length - place.base.length) = place.base := by
    rw [List.length_append, Nat.add_sub_cancel]
    exact List.drop_left
  have same : (place.checker unreachable top).setUnreachable = .ok (place.checker true []) := by
    show Except.ok (Checker.mk (List.drop _ _) _) = _
    rw [show (place.checker unreachable top).stack = top.map Slot.val ++ place.base from rfl]
    show Except.ok (Checker.mk (List.drop (_ - place.base.length) _) _) = _
    rw [cut]
    rfl
  rw [same]
  exact .ok fun after => ⟨fun _ => ⟨top, ⟨[], (List.append_nil _).symm, Or.inr rfl⟩, trivial⟩,
    fun _ => holds_anything⟩

/-- A frame is left when what it promises is there, and with it the checker is back where
the frame was entered. -/
theorem popFrame_checker :
    (Holds unreachable top place.endTypes.reverse ∧
      (place.checker unreachable top).popFrame = .ok (place.endTypes, ⟨place.base, place.outer⟩)) ∨
    (¬Holds unreachable top place.endTypes.reverse ∧
      ∃ why, (place.checker unreachable top).popFrame = .error (.invalid why)) := by
  have unfolded : (place.checker unreachable top).popFrame =
      (place.checker unreachable top).popAll place.endTypes >>= fun checker =>
        checker.last >>= fun frame =>
          if checker.stack.length = frame.height then
            pure (place.endTypes, { checker with frames := checker.frames.tail })
          else
            throw (.invalid "a block leaves values behind that it did not declare as its result") :=
    rfl
  rw [unfolded]
  have agrees := @agrees_popAll place unreachable top place.endTypes
  generalize (place.checker unreachable top).popAll place.endTypes = popped at agrees
  cases agrees with
  | invalid none =>
      right
      refine ⟨fun holds => none _ [] holds ?_, _, rfl⟩
      rw [List.append_nil]
  | @ok later left image =>
      have empty : Holds unreachable top place.endTypes.reverse ↔ left = [] := by
        rw [← @holds_nil later left, image]
        constructor
        · intro holds
          exact ⟨_, holds, (List.append_nil _).symm⟩
        · rintro ⟨_, holds, rfl⟩
          rwa [List.append_nil] at holds
      cases left with
      | nil =>
          left
          refine ⟨empty.mpr rfl, ?_⟩
          show (if place.base.length = place.base.length then _ else _) = _
          rw [if_pos rfl]
          rfl
      | cons ty left =>
          right
          refine ⟨fun holds => absurd (empty.mp holds) (List.cons_ne_nil _ _),
            "a block leaves values behind that it did not declare as its result", ?_⟩
          show (if (Slot.val ty :: (left.map Slot.val ++ place.base)).length =
            place.base.length then _ else _) = _
          rw [if_neg]
          · rfl
          · rw [List.length_cons, List.length_append]
            omega

/-! ## Instructions -/

/-- What an instruction does to a whole stack type, by the rules. -/
def Moves (context : Context) (instruction : Ins) (before after : List ValType) : Prop :=
  ∃ operands results, HasType context instruction operands results ∧
    Over operands results before after

/-- The context that the checker has in a frame: it asks for no table. -/
structure Fits (module : Module) (locals : List ValType) (context : Context) (place : Place) :
    Prop where
  types : context.types = module.types
  functions : context.functions =
    module.imports.map (·.typeIndex) ++ module.funcs.map (·.typeIndex)
  table : context.table = true
  memory : context.memory = module.memoryPages.isSome
  locals : context.locals = locals
  results : ((place.frame false :: place.outer).getLast?).map (·.endTypes) = some context.results
  labels : context.labels = place.labelTypes :: place.outer.map (·.labelTypes)

variable {module : Module} {locals : List ValType} {context : Context} {instruction : Ins}
  {operands results : List ValType} {memory : Bool}

theorem Takes.only (takes : Takes instruction memory operands results) {others left : List ValType}
    (typed : HasType context instruction others left) : others = operands ∧ left = results := by
  cases takes with
  | i32Binary member =>
      simp only [List.mem_cons, List.not_mem_nil, or_false] at member
      rcases member with rfl | rfl | rfl | rfl | rfl | rfl | rfl | rfl | rfl | rfl | rfl
      all_goals
        cases typed with
        | plain again => cases again <;> simp_all
  | i64Binary member =>
      simp only [List.mem_cons, List.not_mem_nil, or_false] at member
      rcases member with rfl | rfl | rfl | rfl | rfl | rfl
      all_goals
        cases typed with
        | plain again => cases again <;> simp_all
  | i64Compare member =>
      simp only [List.mem_cons, List.not_mem_nil, or_false] at member
      rcases member with rfl | rfl | rfl | rfl | rfl | rfl
      all_goals
        cases typed with
        | plain again => cases again <;> simp_all
  | _ =>
      cases typed with
      | plain again =>
          generalize context.memory = declared at again
          cases again <;> simp_all

theorem agrees_typed (typed : HasType context instruction operands.reverse results.reverse)
    (only : ∀ {others left}, HasType context instruction others left →
      others = operands.reverse ∧ left = results.reverse) :
    Agrees place unreachable top (Moves context instruction)
      ((place.checker unreachable top).takes operands results) := by
  refine agrees_takes.congr ?_
  intro before after
  constructor
  · intro leads
    exact ⟨_, _, typed, leads⟩
  · rintro ⟨others, left, found, leads⟩
    rcases only found with ⟨rfl, rfl⟩
    exact leads

/-- An instruction whose rule says only what it takes and leaves. -/
theorem agrees_simple (takes : Takes instruction context.memory operands.reverse results.reverse) :
    Agrees place unreachable top (Moves context instruction)
      ((place.checker unreachable top).takes operands results) :=
  agrees_typed (.plain takes) takes.only

/-- The instructions that go to the memory. -/
def Ins.reaches : Ins → Bool
  | .i32Load _ | .i64Load _ | .i32Load8U _ | .i32Store _ | .i64Store _ | .i32Store8 _
  | .memorySize | .memoryGrow => true
  | _ => false

theorem HasType.has_memory (typed : HasType context instruction operands results)
    (reaches : instruction.reaches = true) : context.memory = true := by
  cases typed with
  | plain takes =>
      generalize context.memory = declared at takes
      cases takes with
      | i32Binary member | i64Binary member | i64Compare member =>
          exfalso
          cases instruction <;> simp [Ins.reaches] at reaches member
      | _ => first | rfl | exact absurd reaches Bool.false_ne_true
  | _ => exact absurd reaches Bool.false_ne_true

theorem agrees_memory (fits : Fits module locals context place)
    (takes : Takes instruction true operands.reverse results.reverse)
    (reaches : instruction.reaches = true) :
    Agrees place unreachable top (Moves context instruction)
      (module.requireMemory >>= fun _ =>
        (place.checker unreachable top).takes operands results) := by
  cases declared : module.memoryPages with
  | none =>
      have without : context.memory = false := by
        rw [fits.memory, declared]
        rfl
      have stops : module.requireMemory =
          .error (.invalid "loads or stores, but the module declares no memory") := by
        rw [Module.requireMemory, declared]
        rfl
      rw [stops]
      refine .invalid ?_
      rintro before after holds ⟨others, left, typed, -⟩
      exact absurd (typed.has_memory reaches) (without ▸ Bool.false_ne_true)
  | some pages =>
      have passes : module.requireMemory = .ok () := by
        rw [Module.requireMemory, declared]
        rfl
      have there : context.memory = true := by
        rw [fits.memory, declared]
        rfl
      rw [passes]
      exact agrees_simple (there ▸ takes)

theorem agrees_stop {why : String} (untyped : ∀ others left, ¬HasType context instruction others left) :
    Agrees place unreachable top (Moves context instruction) (.error (.invalid why)) := by
  refine .invalid ?_
  rintro before after holds ⟨others, left, typed, -⟩
  exact untyped others left typed

theorem branchTarget_checker (fits : Fits module locals context place) (depth : UInt32) :
    (∃ label, context.labels[depth.toNat]? = some label ∧
      (place.checker unreachable top).branchTarget depth = .ok label) ∨
    (context.labels[depth.toNat]? = none ∧
      ∃ why, (place.checker unreachable top).branchTarget depth = .error (.invalid why)) := by
  have same : context.labels[depth.toNat]? =
      (place.checker unreachable top).frames[depth.toNat]?.map (·.labelTypes) := by
    rw [fits.labels, ← List.getElem?_map]
    rfl
  rw [same, Checker.branchTarget]
  cases (place.checker unreachable top).frames[depth.toNat]? with
  | none => exact Or.inr ⟨rfl, _, rfl⟩
  | some frame => exact Or.inl ⟨_, rfl, rfl⟩

theorem getLast_checker (fits : Fits module locals context place) :
    ∃ frame, (place.checker unreachable top).frames.getLast? = some frame ∧
      frame.endTypes = context.results := by
  have results := fits.results
  rcases place with ⟨labelTypes, endTypes, outer, base⟩
  cases outer with
  | nil => exact ⟨_, rfl, Option.some.inj results⟩
  | cons next outer =>
      rcases Option.map_eq_some_iff.mp results with ⟨frame, last, same⟩
      exact ⟨frame, last, same⟩

theorem agrees_br (fits : Fits module locals context place) (depth : UInt32) :
    Agrees place unreachable top (Moves context (.br depth))
      ((place.checker unreachable top).plain module locals (.br depth)) := by
  show Agrees _ _ _ _ ((place.checker unreachable top).branchTarget depth >>= fun target =>
    (place.checker unreachable top).popAll target >>= fun checker => checker.setUnreachable)
  rcases @branchTarget_checker place unreachable top _ _ _ fits depth with
    ⟨label, found, target⟩ | ⟨missing, why, target⟩
  · rw [target]
    refine (agrees_popAll.bind fun later left => agrees_setUnreachable).congr ?_
    intro before after
    constructor
    · rintro ⟨middle, rfl, -⟩
      exact ⟨_, after, .br found, [], by rw [List.append_nil], (List.append_nil _).symm⟩
    · rintro ⟨_, _, typed, stack, rfl, -⟩
      cases typed with
      | plain takes => cases takes <;> simp_all
      | br also =>
          rw [found] at also
          rw [← Option.some.inj also, List.append_assoc]
          exact ⟨_, rfl, trivial⟩
  · rw [target]
    refine agrees_stop fun others left typed => ?_
    cases typed with
    | plain takes => cases takes <;> simp_all
    | br found =>
        rw [missing] at found
        exact absurd found (by simp)

theorem agrees_return (fits : Fits module locals context place) :
    Agrees place unreachable top (Moves context .return_)
      ((place.checker unreachable top).plain module locals .return_) := by
  rcases @getLast_checker place unreachable top _ _ _ fits with ⟨frame, last, ends⟩
  have unfolded : (place.checker unreachable top).plain module locals .return_ =
      (place.checker unreachable top).popAll context.results >>= fun checker =>
        checker.setUnreachable := by
    dsimp only [Checker.plain]
    rw [last, ← ends]
  rw [unfolded]
  refine (agrees_popAll.bind fun later left => agrees_setUnreachable).congr ?_
  intro before after
  constructor
  · rintro ⟨middle, rfl, -⟩
    exact ⟨_, after, .return_, [], by rw [List.append_nil], (List.append_nil _).symm⟩
  · rintro ⟨_, _, typed, stack, rfl, -⟩
    cases typed with
    | plain takes => cases takes <;> simp_all
    | return_ =>
        rw [List.append_assoc]
        exact ⟨_, rfl, trivial⟩

theorem agrees_brIf (fits : Fits module locals context place) (depth : UInt32) :
    Agrees place unreachable top (Moves context (.brIf depth))
      ((place.checker unreachable top).plain module locals (.brIf depth)) := by
  show Agrees _ _ _ _ ((place.checker unreachable top).popExpect .i32 >>= fun checker =>
    checker.branchTarget depth >>= fun target => checker.takes target target)
  by_cases found : ∃ label, context.labels[depth.toNat]? = some label
  · rcases found with ⟨label, found⟩
    have rest (later : Bool) (left : List ValType) : Agrees place later left
        (Over label.reverse label.reverse)
        ((place.checker later left).branchTarget depth >>= fun target =>
          (place.checker later left).takes target target) := by
      rcases @branchTarget_checker place later left _ _ _ fits depth with
        ⟨also, same, target⟩ | ⟨missing, -⟩
      · rw [found] at same
        rw [target, ← Option.some.inj same]
        exact agrees_takes
      · rw [found] at missing
        exact absurd missing (by simp)
    refine (agrees_popExpect.bind rest).congr ?_
    intro before after
    constructor
    · rintro ⟨_, rfl, stack, rfl, rfl⟩
      exact ⟨_, _, .brIf found, stack, rfl, rfl⟩
    · rintro ⟨_, _, typed, stack, rfl, rfl⟩
      cases typed with
      | plain takes => cases takes <;> simp_all
      | brIf also =>
          rw [found] at also
          rw [← Option.some.inj also]
          exact ⟨_, rfl, stack, rfl, rfl⟩
  · have rest (later : Bool) (left : List ValType) : Agrees place later left (fun _ _ => False)
        ((place.checker later left).branchTarget depth >>= fun target =>
          (place.checker later left).takes target target) := by
      rcases @branchTarget_checker place later left _ _ _ fits depth with
        ⟨label, same, -⟩ | ⟨-, why, target⟩
      · exact absurd ⟨label, same⟩ found
      · rw [target]
        exact .invalid fun _ _ _ => id
    refine (agrees_popExpect.bind rest).congr ?_
    intro before after
    constructor
    · rintro ⟨_, -, none⟩
      exact none.elim
    · rintro ⟨_, _, typed, -⟩
      cases typed with
      | plain takes => cases takes <;> simp_all
      | brIf label => exact absurd ⟨_, label⟩ found

theorem funcType_fits (fits : Fits module locals context place) (index : UInt32) :
    (∃ ty, context.function index = some ty ∧ module.funcType index = .ok ty) ∨
    (context.function index = none ∧ ∃ why, module.funcType index = .error (.invalid why)) := by
  have named (typeIndex : UInt32) :
      (∃ ty, context.types[typeIndex.toNat]? = some ty ∧ module.typeNamed typeIndex = .ok ty) ∨
      (context.types[typeIndex.toNat]? = none ∧
        ∃ why, module.typeNamed typeIndex = .error (.invalid why)) := by
    rw [fits.types, Module.typeNamed]
    cases module.types[typeIndex.toNat]? with
    | none => exact Or.inr ⟨rfl, _, rfl⟩
    | some ty => exact Or.inl ⟨ty, rfl, rfl⟩
  rw [Context.function, fits.functions, Module.funcType]
  by_cases imported : index.toNat < module.imports.length
  · rw [List.getElem?_append_left (by rwa [List.length_map]), List.getElem?_map,
      List.getElem?_eq_getElem imported]
    exact named _
  · have none : module.imports[index.toNat]? = none := List.getElem?_eq_none (by omega)
    rw [List.getElem?_append_right (by rw [List.length_map]; omega), List.length_map,
      List.getElem?_map, none]
    cases module.funcs[index.toNat - module.imports.length]? with
    | none => exact Or.inr ⟨rfl, _, rfl⟩
    | some func => exact named _

theorem agrees_call (fits : Fits module locals context place) (index : UInt32) :
    Agrees place unreachable top (Moves context (.call index))
      ((place.checker unreachable top).plain module locals (.call index)) := by
  show Agrees _ _ _ _ (module.funcType index >>= fun ty =>
    (place.checker unreachable top).takes ty.params ty.results)
  rcases funcType_fits fits index with ⟨ty, found, named⟩ | ⟨missing, why, named⟩
  · rw [named]
    refine agrees_typed (.call found) fun typed => ?_
    cases typed with
    | plain takes => cases takes <;> simp_all
    | call also =>
        rw [found] at also
        rw [← Option.some.inj also]
        exact ⟨rfl, rfl⟩
  · rw [named]
    refine agrees_stop fun others left typed => ?_
    cases typed with
    | plain takes => cases takes <;> simp_all
    | call found =>
        rw [missing] at found
        exact absurd found (by simp)

theorem agrees_callIndirect (fits : Fits module locals context place) (typeIndex : UInt32) :
    Agrees place unreachable top (Moves context (.callIndirect typeIndex))
      ((place.checker unreachable top).plain module locals (.callIndirect typeIndex)) := by
  cases found : context.types[typeIndex.toNat]? with
  | some ty =>
      have unfolded : (place.checker unreachable top).plain module locals (.callIndirect typeIndex) =
          (place.checker unreachable top).popExpect .i32 >>= fun checker =>
            checker.takes ty.params ty.results := by
        dsimp only [Checker.plain]
        rw [← fits.types, found]
      rw [unfolded]
      refine (agrees_popExpect.bind fun later left => agrees_takes).congr ?_
      intro before after
      constructor
      · rintro ⟨_, rfl, stack, rfl, rfl⟩
        exact ⟨_, _, .callIndirect fits.table found, stack, rfl, rfl⟩
      · rintro ⟨_, _, typed, stack, rfl, rfl⟩
        cases typed with
        | plain takes => cases takes <;> simp_all
        | callIndirect _ also =>
            rw [found] at also
            rw [← Option.some.inj also]
            exact ⟨_, rfl, stack, rfl, rfl⟩
  | none =>
      have unfolded : (place.checker unreachable top).plain module locals (.callIndirect typeIndex) =
          (place.checker unreachable top).popExpect .i32 >>= fun _ =>
            .error (.invalid ("call_indirect names a type index (" ++ toString typeIndex.toNat ++
              ") the module does not have")) := by
        dsimp only [Checker.plain]
        rw [← fits.types, found]
        rfl
      rw [unfolded]
      have rest (later : Bool) (left : List ValType) :
          Agrees place later left (fun _ _ => False)
            (.error (.invalid ("call_indirect names a type index (" ++
              toString typeIndex.toNat ++ ") the module does not have"))) :=
        .invalid fun _ _ _ => id
      refine (agrees_popExpect.bind rest).congr ?_
      intro before after
      constructor
      · rintro ⟨_, -, none⟩
        exact none.elim
      · rintro ⟨_, _, typed, -⟩
        cases typed with
        | plain takes => cases takes <;> simp_all
        | callIndirect _ also => exact absurd (found.symm.trans also) (by simp)

/-- What reads or writes a local: the local has to be there, and its type decides the rest. -/
theorem agrees_local (fits : Fits module locals context place) (index : UInt32)
    {next : ValType → Check Checker}
    (there : ∀ ty, context.locals[index.toNat]? = some ty →
      Agrees place unreachable top (Moves context instruction) (next ty))
    (needs : context.locals[index.toNat]? = none →
      ∀ others left, ¬HasType context instruction others left) :
    Agrees place unreachable top (Moves context instruction)
      (localType locals index >>= next) := by
  rw [localType, ← fits.locals]
  cases found : context.locals[index.toNat]? with
  | some ty => exact there ty found
  | none => exact agrees_stop (needs found)

theorem takes_nil {ty : ValType} : (place.checker unreachable top).takes [] [ty] =
    pure ((place.checker unreachable top).push ty) := rfl

theorem takes_one {ty : ValType} : (place.checker unreachable top).takes [ty] [] =
    (place.checker unreachable top).popExpect ty := by
  show ((place.checker unreachable top).popExpect ty >>= pure) >>= _ = _
  rw [bind_pure]
  show (place.checker unreachable top).popExpect ty >>= pure = _
  exact bind_pure _

theorem agrees_localGet (fits : Fits module locals context place) (index : UInt32) :
    Agrees place unreachable top (Moves context (.localGet index))
      ((place.checker unreachable top).plain module locals (.localGet index)) := by
  refine agrees_local fits index (fun ty found => ?_) fun missing others left typed => ?_
  · rw [← takes_nil]
    refine agrees_typed (.localGet found) fun typed => ?_
    cases typed with
    | plain takes => cases takes <;> simp_all
    | localGet also =>
        rw [found] at also
        rw [← Option.some.inj also]
        exact ⟨rfl, rfl⟩
  · cases typed with
    | plain takes => cases takes <;> simp_all
    | localGet found => exact absurd (missing.symm.trans found) (by simp)

theorem agrees_localSet (fits : Fits module locals context place) (index : UInt32) :
    Agrees place unreachable top (Moves context (.localSet index))
      ((place.checker unreachable top).plain module locals (.localSet index)) := by
  refine agrees_local fits index (fun ty found => ?_) fun missing others left typed => ?_
  · rw [← takes_one]
    refine agrees_typed (.localSet found) fun typed => ?_
    cases typed with
    | plain takes => cases takes <;> simp_all
    | localSet also =>
        rw [found] at also
        rw [← Option.some.inj also]
        exact ⟨rfl, rfl⟩
  · cases typed with
    | plain takes => cases takes <;> simp_all
    | localSet found => exact absurd (missing.symm.trans found) (by simp)

theorem agrees_localTee (fits : Fits module locals context place) (index : UInt32) :
    Agrees place unreachable top (Moves context (.localTee index))
      ((place.checker unreachable top).plain module locals (.localTee index)) := by
  refine agrees_local fits index (fun ty found => ?_) fun missing others left typed => ?_
  · refine agrees_typed (.localTee found) fun typed => ?_
    cases typed with
    | plain takes => cases takes <;> simp_all
    | localTee also =>
        rw [found] at also
        rw [← Option.some.inj also]
        exact ⟨rfl, rfl⟩
  · cases typed with
    | plain takes => cases takes <;> simp_all
    | localTee found => exact absurd (missing.symm.trans found) (by simp)

/-- The instructions that have others in them. -/
def Ins.nested : Ins → Bool
  | .marked _ _ | .block _ _ | .loop _ _ | .if_ _ _ _ => true
  | _ => false

/-- An instruction with no other in it. -/
theorem agrees_plain (fits : Fits module locals context place)
    (plain : instruction.nested = false) :
    Agrees place unreachable top (Moves context instruction)
      ((place.checker unreachable top).plain module locals instruction) := by
  cases instruction with
  | unreachable =>
      refine agrees_setUnreachable.congr fun before after => ⟨fun _ => ?_, fun _ => trivial⟩
      exact ⟨before, after, .unreachable, [], (List.append_nil _).symm, (List.append_nil _).symm⟩
  | br depth => exact agrees_br fits depth
  | brIf depth => exact agrees_brIf fits depth
  | return_ => exact agrees_return fits
  | call index => exact agrees_call fits index
  | callIndirect typeIndex => exact agrees_callIndirect fits typeIndex
  | drop =>
      refine agrees_drop.congr fun before after => ?_
      constructor
      · rintro ⟨ty, rfl⟩
        exact ⟨_, _, .drop, after, rfl, rfl⟩
      · rintro ⟨_, _, typed, stack, rfl, rfl⟩
        cases typed with
        | plain takes => cases takes <;> simp_all
        | drop => exact ⟨_, rfl⟩
  | localGet index => exact agrees_localGet fits index
  | localSet index => exact agrees_localSet fits index
  | localTee index => exact agrees_localTee fits index
  | nop => exact @agrees_simple place unreachable top context .nop [] [] .nop
  | i32Const value => exact @agrees_simple _ _ _ _ _ [] [.i32] (.i32Const value)
  | i64Const value => exact @agrees_simple _ _ _ _ _ [] [.i64] (.i64Const value)
  | i32Add | i32Sub | i32Mul | i32And | i32Or | i32Eq | i32Ne | i32LtS | i32LeS | i32GtS
  | i32GeS => exact agrees_simple (.i32Binary (by simp))
  | i32Eqz => exact agrees_simple .i32Eqz
  | i64Add | i64Sub | i64Mul | i64Xor | i64DivS | i64RemS =>
      exact agrees_simple (.i64Binary (by simp))
  | i64Eq | i64Ne | i64LtS | i64LeS | i64GtS | i64GeS =>
      exact agrees_simple (.i64Compare (by simp))
  | i64Eqz => exact agrees_simple .i64Eqz
  | i32WrapI64 => exact agrees_simple .i32WrapI64
  | i64ExtendI32S => exact agrees_simple .i64ExtendI32S
  | i32Load offset =>
      exact agrees_memory fits (.i32Load offset) rfl
  | i64Load offset =>
      exact agrees_memory fits (.i64Load offset) rfl
  | i32Load8U offset =>
      exact agrees_memory fits (.i32Load8U offset) rfl
  | i32Store offset =>
      exact agrees_memory fits (.i32Store offset) rfl
  | i64Store offset =>
      exact agrees_memory fits (.i64Store offset) rfl
  | i32Store8 offset =>
      exact agrees_memory fits (.i32Store8 offset) rfl
  | memorySize =>
      exact @agrees_memory _ _ _ _ _ _ _ [] [.i32] fits .memorySize rfl
  | memoryGrow =>
      exact agrees_memory fits .memoryGrow rfl
  | marked | block | loop | if_ => exact absurd plain (by simp [Ins.nested])

/-! ## Bodies -/

/-- The frame of a block that is entered here. -/
def Place.enter (place : Place) (unreachable : Bool) (top labelTypes endTypes : List ValType) :
    Place :=
  ⟨labelTypes, endTypes, place.frame unreachable :: place.outer, top.map .val ++ place.base⟩

variable {labelTypes endTypes : List ValType} {body : List Ins}

theorem Fits.inside (fits : Fits module locals context place) :
    Fits module locals (context.inside labelTypes)
      (place.enter unreachable top labelTypes endTypes) where
  types := fits.types
  functions := fits.functions
  table := fits.table
  memory := fits.memory
  locals := fits.locals
  results := by
    rcases @getLast_checker place unreachable top _ _ _ fits with ⟨frame, last, ends⟩
    show (List.getLast? (_ :: place.frame unreachable :: place.outer)).map _ = _
    rw [List.getLast?_cons_cons]
    exact Option.map_eq_some_iff.mpr ⟨frame, last, ends⟩
  labels := by
    show labelTypes :: context.labels = _
    rw [fits.labels]
    rfl

/-- A body passes, and its frame is left, when the body is typed. -/
theorem finished (agrees : Agrees place false [] (HasTypes context body) checked) :
    (HasTypes context body [] place.endTypes.reverse ∧
      checked >>= Checker.popFrame = .ok (place.endTypes, ⟨place.base, place.outer⟩)) ∨
    (¬HasTypes context body [] place.endTypes.reverse ∧
      ∃ why, checked >>= Checker.popFrame = .error (.invalid why)) := by
  cases agrees with
  | @ok later left image =>
      have typed : Holds later left place.endTypes.reverse ↔
          HasTypes context body [] place.endTypes.reverse := by
        rw [image]
        constructor
        · rintro ⟨before, holds, typed⟩
          rwa [holds_nothing.mp holds] at typed
        · intro typed
          exact ⟨[], holds_nothing.mpr rfl, typed⟩
      rw [← typed]
      exact popFrame_checker
  | invalid none => exact Or.inr ⟨none [] _ (holds_nothing.mpr rfl), _, rfl⟩

/-- A block's body that passes leaves the checker as it was before the block. -/
theorem entered (agrees : Agrees (place.enter unreachable top labelTypes endTypes) false []
      (HasTypes context body) checked) :
    (HasTypes context body [] endTypes.reverse ∧
      checked >>= Checker.popFrame = .ok (endTypes, place.checker unreachable top)) ∨
    (¬HasTypes context body [] endTypes.reverse ∧
      ∃ why, checked >>= Checker.popFrame = .error (.invalid why)) :=
  finished agrees

theorem agrees_enclosed {result : Option ValType} {label : List ValType}
    (agrees : Agrees (place.enter unreachable top label result.toList) false []
      (HasTypes (context.inside label) body) checked)
    (typed : HasTypes (context.inside label) body [] result.toList →
      HasType context instruction [] result.toList)
    (only : ∀ {others left}, HasType context instruction others left →
      (others = [] ∧ left = result.toList) ∧
        HasTypes (context.inside label) body [] result.toList) :
    Agrees place unreachable top (Moves context instruction) (do
      let checker ← checked
      let (types, checker) ← checker.popFrame
      pure (checker.pushAll types)) := by
  have same : result.toList.reverse = result.toList := by
    cases result <;> rfl
  show Agrees _ _ _ _ (checked >>= fun checker => checker.popFrame >>= fun popped =>
    pure (popped.2.pushAll popped.1))
  rw [← bind_assoc]
  rcases entered agrees with ⟨passes, left⟩ | ⟨fails, why, left⟩
  · rw [left]
    rw [same] at passes
    refine agrees_push.congr ?_
    intro before after
    rw [same]
    constructor
    · rintro rfl
      exact ⟨[], _, typed passes, before, rfl, rfl⟩
    · rintro ⟨_, _, found, stack, rfl, rfl⟩
      rcases (only found).1 with ⟨rfl, rfl⟩
      rfl
  · rw [left]
    rw [same] at fails
    exact agrees_stop fun others left found => fails (only found).2

theorem instruction_plain (plain : instruction.nested = false) (checker : Checker) :
    Checker.instruction module locals instruction checker =
      checker.plain module locals instruction := by
  cases instruction with
  | marked | block | loop | if_ => exact absurd plain (by simp [Ins.nested])
  | _ => rfl

theorem HasType.of_if {result : Option ValType} {then_ otherwise : List Ins}
    (typed : HasType context (.if_ result then_ otherwise) operands results) :
    operands = [.i32] ∧ results = result.toList ∧
      HasTypes (context.inside result.toList) then_ [] result.toList ∧
      HasTypes (context.inside result.toList) otherwise [] result.toList := by
  cases typed with
  | plain takes => cases takes <;> simp_all
  | if_ one two => exact ⟨rfl, rfl, one, two⟩

theorem agrees_if {result : Option ValType} {then_ otherwise : List Ins}
    (first : ∀ unreachable top, Agrees (place.enter unreachable top result.toList result.toList)
      false [] (HasTypes (context.inside result.toList) then_) (Checker.instructions module locals then_
        ((place.enter unreachable top result.toList result.toList).checker false [])))
    (second : ∀ unreachable top, Agrees (place.enter unreachable top result.toList result.toList)
      false [] (HasTypes (context.inside result.toList) otherwise) (Checker.instructions module locals
        otherwise ((place.enter unreachable top result.toList result.toList).checker false []))) :
    Agrees place unreachable top (Moves context (.if_ result then_ otherwise))
      (Checker.instruction module locals (.if_ result then_ otherwise)
        (place.checker unreachable top)) := by
  have same : result.toList.reverse = result.toList := by
    cases result <;> rfl
  -- What is checked once the condition is off the stack.
  have arms (later : Bool) (left : List ValType) : Agrees place later left
      (fun before after => (HasTypes (context.inside result.toList) then_ [] result.toList ∧
        HasTypes (context.inside result.toList) otherwise [] result.toList) ∧
          after = result.toList ++ before)
      ((if !result.toList.isEmpty && otherwise.isEmpty then
          throw (.invalid ("an \x60if\x60 with a result needs an \x60else\x60: falling " ++
            "through the implicit empty one would not produce it"))
        else pure PUnit.unit) >>= fun _ =>
        (Checker.instructions module locals then_
          ((place.enter later left result.toList result.toList).checker false []) >>=
          Checker.popFrame) >>= fun popped =>
        (Checker.instructions module locals otherwise
          (popped.2.pushFrame result.toList result.toList) >>= Checker.popFrame) >>= fun again =>
        pure (again.2.pushAll popped.1)) := by
    by_cases bad : (!result.toList.isEmpty && otherwise.isEmpty) = true
    · rw [if_pos bad]
      refine .invalid ?_
      rintro before after - ⟨⟨-, typed⟩, -⟩
      rw [Bool.and_eq_true, List.isEmpty_iff] at bad
      rw [bad.2] at typed
      generalize some_ : result.toList = left at typed
      cases typed
      rw [some_] at bad
      exact absurd bad.1 (by simp)
    · rw [if_neg bad, pure_bind]
      rcases entered (first later left) with ⟨one, back⟩ | ⟨fails, why, stops⟩
      · rw [back]
        show Agrees _ _ _ _ ((Checker.instructions module locals otherwise
          ((place.enter later left result.toList result.toList).checker false []) >>=
            Checker.popFrame) >>= fun again => pure (again.2.pushAll result.toList))
        rcases entered (second later left) with ⟨two, back⟩ | ⟨fails, why, stops⟩
        · rw [back]
          rw [same] at one two
          refine agrees_push.congr fun before after => ?_
          rw [same]
          exact (and_iff_right ⟨one, two⟩).symm
        · rw [stops]
          rw [same] at fails
          exact .invalid fun before after _ typed => fails typed.1.2
      · rw [stops]
        rw [same] at fails
        exact .invalid fun before after _ typed => fails typed.1.1
  have unfolded : Checker.instruction module locals (.if_ result then_ otherwise)
      (place.checker unreachable top) = (place.checker unreachable top).popExpect .i32 >>=
        fun checker => (if !result.toList.isEmpty && otherwise.isEmpty then
            throw (.invalid ("an \x60if\x60 with a result needs an \x60else\x60: falling " ++
              "through the implicit empty one would not produce it"))
          else pure PUnit.unit) >>= fun _ =>
          (Checker.instructions module locals then_
            (checker.pushFrame result.toList result.toList) >>= Checker.popFrame) >>= fun popped =>
          (Checker.instructions module locals otherwise
            (popped.2.pushFrame result.toList result.toList) >>= Checker.popFrame) >>= fun again =>
          pure (again.2.pushAll popped.1) := by
    rw [Checker.instruction]
    simp only [bind_assoc]
    cases (!result.toList.isEmpty && otherwise.isEmpty) <;> rfl
  rw [unfolded]
  refine (agrees_popExpect.bind arms).congr fun before after => ?_
  constructor
  · rintro ⟨_, rfl, ⟨one, two⟩, rfl⟩
    exact ⟨_, _, .if_ one two, _, rfl, rfl⟩
  · rintro ⟨_, _, typed, stack, rfl, rfl⟩
    rcases typed.of_if with ⟨rfl, rfl, both⟩
    exact ⟨_, rfl, both, rfl⟩

mutual

/-- The checker over an instruction agrees with what the rules say the instruction does. -/
theorem instruction_agrees (instruction : Ins) {place : Place} {context : Context}
    {unreachable : Bool} {top : List ValType} (fits : Fits module locals context place) :
    Agrees place unreachable top (Moves context instruction)
      (Checker.instruction module locals instruction (place.checker unreachable top)) := by
  cases instruction with
  | marked site inner =>
      rw [Checker.instruction]
      refine (instruction_agrees inner fits).congr ?_
      intro before after
      constructor
      · rintro ⟨_, _, typed, leads⟩
        exact ⟨_, _, .marked typed, leads⟩
      · rintro ⟨_, _, typed, leads⟩
        cases typed with
        | plain takes => cases takes <;> simp_all
        | marked typed => exact ⟨_, _, typed, leads⟩
  | block result body =>
      rw [Checker.instruction]
      refine agrees_enclosed (instructions_agree body fits.inside) .block fun typed => ?_
      cases typed with
      | plain takes => cases takes <;> simp_all
      | block typed => exact ⟨⟨rfl, rfl⟩, typed⟩
  | loop result body =>
      rw [Checker.instruction]
      refine agrees_enclosed (instructions_agree body fits.inside) .loop fun typed => ?_
      cases typed with
      | plain takes => cases takes <;> simp_all
      | loop typed => exact ⟨⟨rfl, rfl⟩, typed⟩
  | if_ result then_ otherwise =>
      exact agrees_if (fun _ _ => instructions_agree then_ fits.inside)
        fun _ _ => instructions_agree otherwise fits.inside
  | _ =>
      rw [instruction_plain rfl]
      exact agrees_plain fits rfl

/-- The checker over a body agrees with the typing of the body. -/
theorem instructions_agree (body : List Ins) {place : Place} {context : Context}
    {unreachable : Bool} {top : List ValType} (fits : Fits module locals context place) :
    Agrees place unreachable top (HasTypes context body)
      (Checker.instructions module locals body (place.checker unreachable top)) := by
  cases body with
  | nil =>
      refine agrees_refl.congr fun before after => ?_
      constructor
      · rintro rfl
        exact .nil
      · rintro ⟨⟩
        rfl
  | cons instruction rest =>
      refine ((instruction_agrees instruction fits).bind fun later left =>
        instructions_agree rest fits).congr fun before after => ?_
      constructor
      · rintro ⟨middle, ⟨operands, results, typed, stack, rfl, rfl⟩, more⟩
        exact .cons typed more
      · intro typed
        cases typed with
        | cons first more => exact ⟨_, ⟨_, _, first, _, rfl, rfl⟩, more⟩

end

end Deed.Wasm
