import Deed.Wasm.Machine

/-!
# Reasoning about a run

`Runs engine body machine post` says that running `body` from `machine` ends, and
ends with an outcome that `post` accepts.  It is total: a loop needs a measure.
The fuel appears in the first section only; every rule after it is about `Runs`.
-/

namespace Deed.Wasm

variable {engine : Engine}

attribute [grind =] round exec

/-! ## Fuel -/

/-- `after` ends whenever `before` does, and with the same. -/
def Extends {α β : Type} (before after : α → Option β) : Prop :=
  ∀ input output, before input = some output → after input = some output

theorem bind_extends {α β : Type} {x y : Option α} {f g : α → Option β} {output : β}
    (first : ∀ a, x = some a → y = some a) (second : Extends f g)
    (reached : x.bind f = some output) : y.bind g = some output := by
  rcases Option.bind_eq_some_iff.1 reached with ⟨a, found, after⟩
  rw [first a found]
  exact second a output after

theorem andThen_extends {outcome last : Outcome} {f g : Machine → Option Outcome}
    (next : Extends f g) (reached : outcome.andThen f = some last) :
    outcome.andThen g = some last := by
  cases outcome with
  | normal machine => exact next machine last reached
  | branch depth machine => exact reached
  | returned machine => exact reached
  | trapped trap => exact reached

theorem proceed_extends (stepped : Except Trap Machine) {last : Outcome}
    {f g : Machine → Option Outcome} (next : Extends f g)
    (reached : proceed stepped f = some last) : proceed stepped g = some last := by
  cases stepped with
  | ok machine => exact next machine last reached
  | error trap => exact reached

theorem enter_extends (found : Except Trap (FuncType × Func)) {last : Outcome}
    {machine : Machine} {rest : List Ins} {run run' : List Ins → Machine → Option Outcome}
    (more : ∀ body, Extends (run body) (run' body))
    (reached : enter found machine run (run rest) = some last) :
    enter found machine run' (run' rest) = some last := by
  cases found with
  | ok pair =>
      exact bind_extends (more _ _) (fun _ _ => andThen_extends (more rest)) reached
  | error trap => exact reached

theorem again_extends {outcome last : Outcome} {result : Option ValType}
    {stack : List Value} {loop loop' f g : Machine → Option Outcome}
    (round_ : Extends loop loop') (next : Extends f g)
    (reached : outcome.again result stack loop f = some last) :
    outcome.again result stack loop' g = some last := by
  rcases outcome with machine | ⟨_ | depth, machine⟩ | machine | trap
  case branch.zero => exact round_ _ last reached
  all_goals
    simp only [Outcome.again] at reached ⊢
    exact andThen_extends next reached

/-- Neither a jump nor a call nor a block. -/
def Ins.plain : Ins → Bool
  | .marked _ _ => false
  | .block _ _ => false
  | .loop _ _ => false
  | .if_ _ _ _ => false
  | .br _ => false
  | .brIf _ => false
  | .return_ => false
  | .call _ => false
  | .callIndirect _ => false
  | _ => true

theorem round_plain {instruction : Ins} (plain : instruction.plain = true)
    {run : List Ins → Machine → Option Outcome} {rest : List Ins} {machine : Machine} :
    round engine run (instruction :: rest) machine =
      proceed (step engine instruction machine) (run rest) := by
  cases instruction <;> first | exact Bool.noConfusion plain | rfl

/-- A round of a machine that ends more often ends more often. -/
theorem round_extends {run run' : List Ins → Machine → Option Outcome}
    (more : ∀ body, Extends (run body) (run' body)) (body : List Ins) :
    Extends (round engine run body) (round engine run' body) := by
  have invoked : ∀ (index : Nat) (machine : Machine) (rest : List Ins) (last : Outcome),
      invoke engine index machine run (run rest) = some last →
      invoke engine index machine run' (run' rest) = some last := by
    intro index machine rest last reached
    rw [invoke] at reached ⊢
    cases imported : engine.imported index machine with
    | some answered =>
        rw [imported] at reached
        exact proceed_extends answered (more rest) reached
    | none =>
        rw [imported] at reached
        exact enter_extends _ more reached
  intro machine last reached
  rcases body with _ | ⟨instruction, rest⟩
  · exact reached
  by_cases plain : instruction.plain = true
  · rw [round_plain plain] at reached ⊢
    exact proceed_extends _ (more rest) reached
  rcases machine with ⟨memory, locals, stack⟩
  cases instruction
  case marked site inner => exact more _ _ _ reached
  case block result inner =>
    exact bind_extends (more _ _) (fun _ _ => andThen_extends (more rest)) reached
  case loop result inner =>
    exact bind_extends (more _ _) (fun _ _ => again_extends (more _) (more rest)) reached
  case br depth => exact reached
  case return_ => exact reached
  case call index => exact invoked _ _ _ _ reached
  case if_ result then_ otherwise =>
    rcases stack with _ | ⟨condition | value, stack⟩
    case cons.i32 =>
      exact bind_extends (more _ _) (fun _ _ => andThen_extends (more rest)) reached
    case nil => exact reached
    case cons.i64 =>
      exact proceed_extends (step engine (.if_ result then_ otherwise) _) (more rest) reached
  case brIf depth =>
    rcases stack with _ | ⟨condition | value, stack⟩
    case cons.i32 =>
      by_cases taken : condition ≠ 0
      · rw [round, if_pos taken] at reached ⊢
        exact reached
      · rw [round, if_neg taken] at reached ⊢
        exact more _ _ _ reached
    case nil => exact reached
    case cons.i64 =>
      exact proceed_extends (step engine (.brIf depth) _) (more rest) reached
  case callIndirect ty =>
    rcases stack with _ | ⟨slot | value, stack⟩
    case cons.i32 =>
      rw [round] at reached ⊢
      cases found : engine.module.reached slot ty with
      | ok index =>
          rw [found] at reached
          exact invoked _ _ _ _ reached
      | error trap =>
          rw [found] at reached
          exact reached
    case nil => exact reached
    case cons.i64 =>
      exact proceed_extends (step engine (.callIndirect ty) _) (more rest) reached
  all_goals exact absurd rfl plain

/-- More fuel changes nothing about a run that ended. -/
theorem exec_succ (fuel : Nat) (body : List Ins) :
    Extends (exec engine fuel body) (exec engine (fuel + 1) body) := by
  induction fuel generalizing body with
  | zero =>
      intro machine outcome ended
      exact absurd ended.symm (Option.some_ne_none _)
  | succ fuel ih => exact round_extends ih body

theorem exec_le {fuel more : Nat} (enough : fuel ≤ more) (body : List Ins) :
    Extends (exec engine fuel body) (exec engine more body) := by
  induction enough with
  | refl => exact fun _ _ => id
  | step _ ih =>
      intro machine outcome ended
      exact exec_succ _ body machine outcome (ih machine outcome ended)

/-! ## Runs -/

/-- Running `body` from `machine` ends, with an outcome that `post` accepts. -/
def Runs (engine : Engine) (body : List Ins) (machine : Machine)
    (post : Outcome → Prop) : Prop :=
  ∃ fuel outcome, exec engine fuel body machine = some outcome ∧ post outcome

/-- `post` of what the rest of the code makes of an outcome. -/
def Outcome.Then (engine : Engine) (rest : List Ins) (post : Outcome → Prop) :
    Outcome → Prop
  | .normal machine => Runs engine rest machine post
  | .branch depth machine => post (.branch depth machine)
  | .returned machine => post (.returned machine)
  | .trapped trap => post (.trapped trap)

/-- `post` of what one instruction and the rest of the code come to. -/
def Stepped (engine : Engine) (rest : List Ins) (post : Outcome → Prop) :
    Except Trap Machine → Prop
  | .ok machine => Runs engine rest machine post
  | .error trap => post (.trapped trap)

variable {rest body : List Ins} {machine : Machine} {post : Outcome → Prop}
  {result : Option ValType} {memory : Memory} {locals stack : List Value}

/-- A run has one outcome. -/
theorem Runs.unique {other : Outcome → Prop} (runs : Runs engine body machine post)
    (again : Runs engine body machine other) :
    ∃ outcome, post outcome ∧ other outcome := by
  rcases runs with ⟨fuel, outcome, ended, accepts⟩
  rcases again with ⟨more, last, endedAgain, acceptsAgain⟩
  have first := exec_le (Nat.le_max_left fuel more) body machine outcome ended
  have second := exec_le (Nat.le_max_right fuel more) body machine last endedAgain
  have same : outcome = last := Option.some.inj (first.symm.trans second)
  exact ⟨outcome, accepts, same ▸ acceptsAgain⟩

theorem Runs.mono {weaker : Outcome → Prop} (runs : Runs engine body machine post)
    (weakens : ∀ outcome, post outcome → weaker outcome) :
    Runs engine body machine weaker := by
  rcases runs with ⟨fuel, outcome, ended, accepts⟩
  exact ⟨fuel, outcome, ended, weakens outcome accepts⟩

/-- A run is its first round and the run after that. -/
theorem runs_of_round {next : Machine} {code : List Ins}
    (same : ∀ run : List Ins → Machine → Option Outcome,
      round engine run body machine = run code next) :
    Runs engine body machine post ↔ Runs engine code next post := by
  constructor
  · rintro ⟨_ | fuel, outcome, ended, accepts⟩
    · exact absurd ended.symm (Option.some_ne_none _)
    · exact ⟨fuel, outcome, (same _).symm.trans ended, accepts⟩
  · rintro ⟨fuel, outcome, ended, accepts⟩
    exact ⟨fuel + 1, outcome, (same _).trans ended, accepts⟩

theorem runs_of_end {outcome : Outcome}
    (same : ∀ run : List Ins → Machine → Option Outcome,
      round engine run body machine = some outcome) :
    Runs engine body machine post ↔ post outcome := by
  constructor
  · rintro ⟨_ | fuel, last, ended, accepts⟩
    · exact absurd ended.symm (Option.some_ne_none _)
    · exact Option.some.inj ((same _).symm.trans ended) ▸ accepts
  · intro accepts
    exact ⟨1, outcome, same _, accepts⟩

@[simp]
theorem runs_nil : Runs engine [] machine post ↔ post (.normal machine) :=
  runs_of_end fun _ => rfl

@[simp]
theorem runs_marked {site : UInt32} {inner : Ins} :
    Runs engine (.marked site inner :: rest) machine post ↔
      Runs engine (inner :: rest) machine post :=
  runs_of_round fun _ => rfl

@[simp]
theorem runs_return : Runs engine (.return_ :: rest) machine post ↔
    post (.returned machine) :=
  runs_of_end fun _ => rfl

@[simp]
theorem runs_br {depth : UInt32} : Runs engine (.br depth :: rest) machine post ↔
    post (.branch depth.toNat machine) :=
  runs_of_end fun _ => rfl

theorem runs_plain {instruction : Ins} (plain : instruction.plain = true) :
    Runs engine (instruction :: rest) machine post ↔
      Stepped engine rest post (step engine instruction machine) := by
  cases stepped : step engine instruction machine with
  | ok next =>
      apply runs_of_round
      intro run
      rw [round_plain plain, stepped]
      rfl
  | error trap =>
      apply runs_of_end
      intro run
      rw [round_plain plain, stepped]
      rfl

/-- Running a body and going on with what it came to, in one run. -/
theorem runs_bind {inner : List Ins} {start : Machine} {leave : Outcome → Outcome}
    (same : ∀ run : List Ins → Machine → Option Outcome,
      round engine run body machine =
        (run inner start).bind fun outcome => (leave outcome).andThen (run rest)) :
    Runs engine body machine post ↔
      Runs engine inner start fun outcome => (leave outcome).Then engine rest post := by
  constructor
  · rintro ⟨_ | fuel, last, ended, accepts⟩
    · exact absurd ended.symm (Option.some_ne_none _)
    · rw [exec, same] at ended
      rcases Option.bind_eq_some_iff.1 ended with ⟨outcome, first, after⟩
      refine ⟨fuel, outcome, first, ?_⟩
      show (leave outcome).Then engine rest post
      generalize leave outcome = left at after ⊢
      cases left with
      | normal machine => exact ⟨fuel, last, after, accepts⟩
      | branch depth machine =>
          rw [← Option.some.inj after] at accepts
          exact accepts
      | returned machine =>
          rw [← Option.some.inj after] at accepts
          exact accepts
      | trapped trap =>
          rw [← Option.some.inj after] at accepts
          exact accepts
  · rintro ⟨fuel, outcome, ended, then_⟩
    have one : ∀ {left : Outcome}, leave outcome = left →
        (∀ run : Machine → Option Outcome, left.andThen run = some left) →
        post left → Runs engine body machine post := by
      intro left is stays accepts
      refine ⟨fuel + 1, left, ?_, accepts⟩
      rw [exec, same, ended, Option.bind_some, is, stays]
    cases is : leave outcome with
    | normal next =>
        rw [is] at then_
        rcases then_ with ⟨more, last, after, accepts⟩
        refine ⟨max fuel more + 1, last, ?_, accepts⟩
        rw [exec, same, exec_le (Nat.le_max_left fuel more) _ _ _ ended,
          Option.bind_some, is]
        exact exec_le (Nat.le_max_right fuel more) _ _ _ after
    | branch depth next => exact one is (fun _ => rfl) (by rwa [is] at then_)
    | returned next => exact one is (fun _ => rfl) (by rwa [is] at then_)
    | trapped trap => exact one is (fun _ => rfl) (by rwa [is] at then_)

theorem runs_block : Runs engine (.block result body :: rest) machine post ↔
    Runs engine body { machine with stack := [] } fun outcome =>
      (outcome.leave result machine.stack).Then engine rest post :=
  runs_bind fun _ => rfl

theorem runs_if_i32 {then_ otherwise : List Ins} {condition : Int32} :
    Runs engine (.if_ result then_ otherwise :: rest)
        ⟨memory, locals, .i32 condition :: stack⟩ post ↔
      Runs engine (if condition ≠ 0 then then_ else otherwise) ⟨memory, locals, []⟩
        fun outcome => (outcome.leave result stack).Then engine rest post :=
  runs_bind fun _ => rfl

/-- Two runs with the same first round. -/
theorem runs_same {code : List Ins} {next : Machine}
    (same : ∀ run : List Ins → Machine → Option Outcome,
      round engine run body machine = round engine run code next) :
    Runs engine body machine post ↔ Runs engine code next post := by
  constructor
  · rintro ⟨_ | fuel, outcome, ended, accepts⟩
    · exact absurd ended.symm (Option.some_ne_none _)
    · exact ⟨fuel + 1, outcome, (same _).symm.trans ended, accepts⟩
  · rintro ⟨_ | fuel, outcome, ended, accepts⟩
    · exact absurd ended.symm (Option.some_ne_none _)
    · exact ⟨fuel + 1, outcome, (same _).trans ended, accepts⟩

theorem runs_brIf_taken {depth : UInt32} {condition : Int32} (taken : condition ≠ 0) :
    Runs engine (.brIf depth :: rest) ⟨memory, locals, .i32 condition :: stack⟩ post ↔
      post (.branch depth.toNat ⟨memory, locals, stack⟩) :=
  runs_of_end fun _ => if_pos taken

theorem runs_brIf_past {depth : UInt32} :
    Runs engine (.brIf depth :: rest) ⟨memory, locals, .i32 0 :: stack⟩ post ↔
      Runs engine rest ⟨memory, locals, stack⟩ post := by
  apply runs_of_round
  intro run
  rw [round, if_neg (not_not_intro rfl)]

/-- A call of an imported function is what the host makes of it. -/
theorem runs_call_imported {index : UInt32} {answered : Except Trap Machine}
    (found : engine.imported index.toNat machine = some answered) :
    Runs engine (.call index :: rest) machine post ↔ Stepped engine rest post answered := by
  cases answered with
  | ok next =>
      apply runs_of_round
      intro run
      rw [round, invoke, found]
      rfl
  | error trap =>
      apply runs_of_end
      intro run
      rw [round, invoke, found]
      rfl

/-- A call through the table is a call of the function there, when that is of the type. -/
theorem runs_callIndirect {slot : Int32} {ty index : UInt32}
    (there : engine.module.table[slot.toUInt32.toNat]? = some index)
    (agrees : engine.module.signature index.toNat = engine.module.types[ty.toNat]?) :
    Runs engine (.callIndirect ty :: rest) ⟨memory, locals, .i32 slot :: stack⟩ post ↔
      Runs engine (.call index :: rest) ⟨memory, locals, stack⟩ post := by
  have found : engine.module.reached slot ty = .ok index.toNat := by
    rw [Module.reached, there]
    exact if_pos agrees
  apply runs_same
  intro run
  rw [round, round, found]

theorem runs_callIndirect_outside {slot : Int32} {ty : UInt32}
    (outside : engine.module.table[slot.toUInt32.toNat]? = none) :
    Runs engine (.callIndirect ty :: rest) ⟨memory, locals, .i32 slot :: stack⟩ post ↔
      post (.trapped .outOfBounds) := by
  have found : engine.module.reached slot ty = .error .outOfBounds := by
    rw [Module.reached, outside]
  apply runs_of_end
  intro run
  rw [round, found]

/-- A function that the module defines is not one that it imports. -/
theorem imported_none {index : Nat} {signature : FuncType} {func : Func} {machine : Machine}
    (found : engine.module.function index = .ok (signature, func)) :
    engine.imported index machine = none := by
  rw [Module.function] at found
  by_cases imported : index < engine.module.imports.length
  · rw [if_pos imported] at found
    exact nomatch found
  · rw [Engine.imported, List.getElem?_eq_none (Nat.le_of_not_lt imported)]
    rfl

theorem runs_call {index : UInt32} {signature : FuncType} {func : Func}
    (found : engine.module.function index.toNat = .ok (signature, func)) :
    Runs engine (.call index :: rest) machine post ↔
      Runs engine func.body (machine.enter signature func) fun outcome =>
        (outcome.answer signature machine).Then engine rest post := by
  apply runs_bind
  intro run
  rw [round, invoke, imported_none found, found]
  rfl

/-- What a turn of a loop has to come to: `round` where it branches to the loop's head, and
`post` of the rest of the code where it leaves the loop. -/
def Outcome.Turn (engine : Engine) (result : Option ValType) (stack : List Value)
    (rest : List Ins) (post : Outcome → Prop) (round : Memory → List Value → Prop) :
    Outcome → Prop
  | .normal machine => Runs engine rest (machine.leave result stack) post
  | .branch 0 machine => round machine.memory machine.locals
  | .branch (depth + 1) machine => post (.branch depth machine)
  | .returned machine => post (.returned machine)
  | .trapped trap => post (.trapped trap)

/-- A turn of a loop, and the loop again or the rest of the code after it. -/
theorem runs_loop_turn (turn : Runs engine body ⟨memory, locals, []⟩
      (Outcome.Turn engine result stack rest post fun memory locals =>
        Runs engine (.loop result body :: rest) ⟨memory, locals, stack⟩ post)) :
    Runs engine (.loop result body :: rest) ⟨memory, locals, stack⟩ post := by
  rcases turn with ⟨fuel, outcome, ended, comes⟩
  have whole : ∀ (more : Nat) (last : Outcome),
      outcome.again result stack (exec engine more (.loop result body :: rest))
        (exec engine more rest) = some last → post last →
      Runs engine (.loop result body :: rest) ⟨memory, locals, stack⟩ post := by
    intro more last after accepts
    refine ⟨max fuel more + 1, last, ?_, accepts⟩
    show ((exec engine (max fuel more) body _).bind _) = _
    rw [exec_le (Nat.le_max_left fuel more) _ _ _ ended, Option.bind_some]
    exact again_extends (exec_le (Nat.le_max_right fuel more) _)
      (exec_le (Nat.le_max_right fuel more) _) after
  rcases outcome with next | ⟨_ | depth, next⟩ | next | trap
  · rcases comes with ⟨more, last, after, accepts⟩
    exact whole more last after accepts
  · rcases comes with ⟨more, last, after, accepts⟩
    exact whole more last after accepts
  · exact whole 0 (.branch depth next) rfl comes
  · exact whole 0 (.returned next) rfl comes
  · exact whole 0 (.trapped trap) rfl comes

/-- A loop ends when each turn either leaves it, or comes back with less to do: the
invariant counts what there is left. -/
theorem runs_loop (invariant : Nat → Memory → List Value → Prop) {left : Nat}
    (start : invariant left memory locals)
    (turn : ∀ left memory locals, invariant left memory locals →
      Runs engine body ⟨memory, locals, []⟩
        (Outcome.Turn engine result stack rest post fun memory locals =>
          ∃ less, less < left ∧ invariant less memory locals)) :
    Runs engine (.loop result body :: rest) ⟨memory, locals, stack⟩ post := by
  induction left using Nat.strongRecOn generalizing memory locals with
  | ind left ih =>
      apply runs_loop_turn
      apply (turn left memory locals start).mono
      intro outcome comes
      rcases outcome with next | ⟨_ | depth, next⟩ | next | trap
      · exact comes
      · rcases comes with ⟨less, smaller, holds⟩
        exact ih less smaller holds
      · exact comes
      · exact comes
      · exact comes

/-! ## Loops inside a block -/

/-- What a turn of a loop that stands alone in a block has to come to: `round` where it
branches to the loop's head, and `post` of the rest of the code where it leaves the
block. -/
def Outcome.Looped (engine : Engine) (stack : List Value) (rest : List Ins)
    (post : Outcome → Prop) (round : Memory → List Value → Prop) : Outcome → Prop
  | .normal machine => Runs engine rest ⟨machine.memory, machine.locals, stack⟩ post
  | .branch 0 machine => round machine.memory machine.locals
  | .branch 1 machine => Runs engine rest ⟨machine.memory, machine.locals, stack⟩ post
  | .branch (depth + 2) machine => post (.branch depth machine)
  | .returned machine => post (.returned machine)
  | .trapped trap => post (.trapped trap)

theorem runs_loop_alone (invariant : Nat → Memory → List Value → Prop) {left : Nat}
    (start : invariant left memory locals)
    (turn : ∀ left memory locals, invariant left memory locals →
      Runs engine body ⟨memory, locals, []⟩
        (Outcome.Looped engine stack rest post fun memory locals =>
          ∃ less, less < left ∧ invariant less memory locals)) :
    Runs engine [.loop none body] ⟨memory, locals, []⟩ fun outcome =>
      (outcome.leave none stack).Then engine rest post := by
  apply runs_loop invariant start
  intro left memory locals holds
  apply (turn left memory locals holds).mono
  intro outcome comes
  rcases outcome with next | ⟨_ | _ | depth, next⟩ | next | trap
  · exact runs_nil.2 comes
  · exact comes
  · exact comes
  · exact comes
  · exact comes
  · exact comes

theorem runs_block_loop (invariant : Nat → Memory → List Value → Prop) {left : Nat}
    (start : invariant left memory locals)
    (turn : ∀ left memory locals, invariant left memory locals →
      Runs engine body ⟨memory, locals, []⟩
        (Outcome.Looped engine stack rest post fun memory locals =>
          ∃ less, less < left ∧ invariant less memory locals)) :
    Runs engine (.block none [.loop none body] :: rest) ⟨memory, locals, stack⟩ post := by
  rw [runs_block]
  exact runs_loop_alone invariant start turn

section Outcomes

variable {round : Memory → List Value → Prop} {depth : Nat} {trap : Trap}

@[simp]
theorem looped_normal : (Outcome.normal machine).Looped engine stack rest post round ↔
    Runs engine rest ⟨machine.memory, machine.locals, stack⟩ post := Iff.rfl

@[simp]
theorem looped_again : (Outcome.branch 0 machine).Looped engine stack rest post round ↔
    round machine.memory machine.locals := Iff.rfl

@[simp]
theorem looped_left : (Outcome.branch 1 machine).Looped engine stack rest post round ↔
    Runs engine rest ⟨machine.memory, machine.locals, stack⟩ post := Iff.rfl

@[simp]
theorem looped_returned :
    (Outcome.returned machine).Looped engine stack rest post round ↔
      post (.returned machine) := Iff.rfl

@[simp]
theorem looped_trapped : (Outcome.trapped trap).Looped engine stack rest post round ↔
    post (.trapped trap) := Iff.rfl

@[simp]
theorem then_normal : (Outcome.normal machine).Then engine rest post ↔
    Runs engine rest machine post := Iff.rfl

@[simp]
theorem then_branch : (Outcome.branch depth machine).Then engine rest post ↔
    post (.branch depth machine) := Iff.rfl

@[simp]
theorem then_returned : (Outcome.returned machine).Then engine rest post ↔
    post (.returned machine) := Iff.rfl

@[simp]
theorem then_trapped : (Outcome.trapped trap).Then engine rest post ↔
    post (.trapped trap) := Iff.rfl

@[simp]
theorem leave_normal : (Outcome.normal machine).leave none stack =
    .normal ⟨machine.memory, machine.locals, stack⟩ := rfl

@[simp]
theorem leave_again : (Outcome.branch 0 machine).leave none stack =
    .normal ⟨machine.memory, machine.locals, stack⟩ := rfl

@[simp]
theorem leave_branch : (Outcome.branch (depth + 1) machine).leave result stack =
    .branch depth machine := rfl

@[simp]
theorem leave_returned : (Outcome.returned machine).leave result stack =
    .returned machine := rfl

@[simp]
theorem leave_trapped : (Outcome.trapped trap).leave result stack = .trapped trap := rfl

end Outcomes

end Deed.Wasm
