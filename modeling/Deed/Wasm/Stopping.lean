import Deed.Wasm.Heap

/-!
# Where a run stops

One piece of code after another, and the memory that a run has when it traps.
-/

namespace Deed.Wasm

variable {engine : Engine} {first rest : List Ins} {machine next : Machine}
  {post : Outcome → Prop} {trap : Trap} {memory : Memory}

/-! ## One after another -/

/-- What `first` came to, and the rest of the code, out of what comes after them. -/
def Appends (engine : Engine) (fuel : Nat) : Prop :=
  ∀ (first rest : List Ins) (machine : Machine) (outcome : Outcome) (post : Outcome → Prop),
    exec engine fuel first machine = some outcome → outcome.Then engine rest post →
      Runs engine (first ++ rest) machine post

section Appending

variable {fuel : Nat} (ih : Appends engine fuel) {outcome left : Outcome} {more : List Ins}

include ih

theorem Appends.then (came : left.andThen (exec engine fuel first) = some outcome)
    (after : outcome.Then engine rest post) : left.Then engine (first ++ rest) post := by
  cases left with
  | normal machine => exact ih first rest machine outcome post came after
  | branch depth machine =>
      rw [← Option.some.inj came] at after
      exact after
  | returned machine =>
      rw [← Option.some.inj came] at after
      exact after
  | trapped trap =>
      rw [← Option.some.inj came] at after
      exact after

theorem Appends.stepped {stepped : Except Trap Machine}
    (came : proceed stepped (exec engine fuel first) = some outcome)
    (after : outcome.Then engine rest post) :
    Stepped engine (first ++ rest) post stepped := by
  cases stepped with
  | ok machine => exact ih first rest machine outcome post came after
  | error trap =>
      rw [← Option.some.inj came] at after
      exact after

theorem Appends.invoked {index : UInt32}
    (came : invoke engine index.toNat machine (exec engine fuel) (exec engine fuel first) =
      some outcome)
    (after : outcome.Then engine rest post) :
    Runs engine (.call index :: first ++ rest) machine post := by
  rw [invoke] at came
  cases imported : engine.imported index.toNat machine with
  | some answered =>
      rw [imported] at came
      exact (runs_call_imported imported).mpr (ih.stepped came after)
  | none =>
      rw [imported] at came
      cases found : engine.module.function index.toNat with
      | ok pair =>
          rw [found] at came
          rcases Option.bind_eq_some_iff.1 came with ⟨inner, ended, came⟩
          exact (runs_call found).mpr ⟨fuel, inner, ended, ih.then came after⟩
      | error trap =>
          rw [found] at came
          rw [← Option.some.inj came] at after
          refine (runs_of_end ?_).mpr after
          intro run
          rw [List.cons_append, round, invoke, imported, found]
          rfl

end Appending

/-- Code is run by running its first part and what comes after that. -/
theorem exec_append (fuel : Nat) : Appends engine fuel := by
  induction fuel with
  | zero =>
      intro first rest machine outcome post came after
      exact absurd came.symm (Option.some_ne_none _)
  | succ fuel ih =>
      intro first rest machine outcome post came after
      rcases first with _ | ⟨instruction, first⟩
      · rw [← Option.some.inj came] at after
        exact after
      by_cases plain : instruction.plain = true
      · rw [exec, round_plain plain] at came
        exact (runs_plain plain).mpr (ih.stepped came after)
      rcases machine with ⟨memory, locals, stack⟩
      cases instruction
      case marked site inner => exact runs_marked.mpr (ih _ _ _ _ _ came after)
      case block result inner =>
        rcases Option.bind_eq_some_iff.1 came with ⟨body, ended, came⟩
        exact runs_block.mpr ⟨fuel, body, ended, ih.then came after⟩
      case loop result inner =>
        rcases Option.bind_eq_some_iff.1 came with ⟨body, ended, came⟩
        apply runs_loop_turn
        refine ⟨fuel, body, ended, ?_⟩
        rcases body with next | ⟨_ | depth, next⟩ | next | trap
        · exact ih _ _ _ _ _ came after
        · exact ih (.loop result inner :: first) rest _ _ _ came after
        · rw [← Option.some.inj came] at after
          exact after
        · rw [← Option.some.inj came] at after
          exact after
        · rw [← Option.some.inj came] at after
          exact after
      case br depth =>
        rw [← Option.some.inj came] at after
        exact runs_br.mpr after
      case return_ =>
        rw [← Option.some.inj came] at after
        exact runs_return.mpr after
      case call index => exact ih.invoked came after
      case if_ result then_ otherwise =>
        rcases stack with _ | ⟨condition | value, stack⟩
        · rw [← Option.some.inj came] at after
          exact (runs_of_end fun _ => rfl).mpr after
        · rcases Option.bind_eq_some_iff.1 came with ⟨body, ended, came⟩
          exact runs_if_i32.mpr ⟨fuel, body, ended, ih.then came after⟩
        · rcases stack with _ | ⟨other, stack⟩
          · rw [← Option.some.inj came] at after
            exact (runs_of_end fun _ => rfl).mpr after
          · rw [← Option.some.inj came] at after
            exact (runs_of_end fun _ => by cases other <;> rfl).mpr after
      case brIf depth =>
        rcases stack with _ | ⟨condition | value, stack⟩
        · rw [← Option.some.inj came] at after
          exact (runs_of_end fun _ => rfl).mpr after
        · by_cases taken : condition ≠ 0
          · rw [exec, round, if_pos taken] at came
            rw [← Option.some.inj came] at after
            exact (runs_brIf_taken taken).mpr after
          · rw [exec, round, if_neg taken] at came
            rw [of_not_not taken]
            exact runs_brIf_past.mpr (ih _ _ _ _ _ came after)
        · rcases stack with _ | ⟨other, stack⟩
          · rw [← Option.some.inj came] at after
            exact (runs_of_end fun _ => rfl).mpr after
          · rw [← Option.some.inj came] at after
            exact (runs_of_end fun _ => by cases other <;> rfl).mpr after
      case callIndirect ty =>
        rcases stack with _ | ⟨slot | value, stack⟩
        · rw [← Option.some.inj came] at after
          exact (runs_of_end fun _ => rfl).mpr after
        · rw [exec, round] at came
          cases there : engine.module.table[slot.toUInt32.toNat]? with
          | none =>
              have outside : engine.module.reached slot ty = .error .outOfBounds := by
                rw [Module.reached, there]
              rw [outside] at came
              rw [← Option.some.inj came] at after
              exact (runs_callIndirect_outside there).mpr after
          | some index =>
              by_cases agrees : engine.module.signature index.toNat =
                  engine.module.types[ty.toNat]?
              · have found : engine.module.reached slot ty = .ok index.toNat := by
                  rw [Module.reached, there]
                  exact if_pos agrees
                rw [found] at came
                exact (runs_callIndirect there agrees).mpr (ih.invoked came after)
              · have other : engine.module.reached slot ty = .error .mismatch := by
                  rw [Module.reached, there]
                  exact if_neg agrees
                rw [other] at came
                rw [← Option.some.inj came] at after
                refine (runs_of_end ?_).mpr after
                intro run
                rw [List.cons_append, round, other]
        · rcases stack with _ | ⟨other, stack⟩
          · rw [← Option.some.inj came] at after
            exact (runs_of_end fun _ => rfl).mpr after
          · rw [← Option.some.inj came] at after
            exact (runs_of_end fun _ => by cases other <;> rfl).mpr after
      all_goals exact absurd rfl plain

/-- A run of some code, and what the code after it makes of how it ended. -/
theorem runs_append (runs : Runs engine first machine fun outcome =>
      outcome.Then engine rest post) : Runs engine (first ++ rest) machine post := by
  rcases runs with ⟨fuel, outcome, ended, after⟩
  exact exec_append fuel first rest machine outcome post ended after

/-- A run that falls off the end of its code with this machine. -/
def Comes (engine : Engine) (code : List Ins) (machine next : Machine) : Prop :=
  Runs engine code machine fun outcome => outcome = .normal next

theorem Comes.runs (comes : Comes engine first machine next)
    (after : Runs engine rest next post) : Runs engine (first ++ rest) machine post := by
  apply runs_append
  apply comes.mono
  rintro _ rfl
  exact after

theorem Comes.trans {last : Machine} (comes : Comes engine first machine next)
    (after : Comes engine rest next last) : Comes engine (first ++ rest) machine last :=
  comes.runs after

/-! ## Instructions in a row -/

/-- Instructions that neither jump nor call, one after another. -/
def steps (engine : Engine) (code : List Ins) (machine : Machine) : Except Trap Machine :=
  code.foldlM (fun machine instruction => step engine instruction machine) machine

theorem comes_of_steps {code : List Ins} (plain : code.all Ins.plain = true)
    (stepped : steps engine code machine = .ok next) : Comes engine code machine next := by
  induction code generalizing machine with
  | nil =>
      rw [← Except.ok.inj stepped]
      exact runs_nil.mpr rfl
  | cons instruction rest ih =>
      rw [List.all_cons, Bool.and_eq_true] at plain
      refine (runs_plain plain.1).mpr ?_
      rw [steps, List.foldlM_cons] at stepped
      cases one : step engine instruction machine with
      | ok between =>
          rw [one] at stepped
          exact ih plain.2 stepped
      | error trap =>
          rw [one] at stepped
          cases stepped

section Rows

variable {locals stack : List Value}

theorem steps_get {index : UInt32} {value : Value} (found : locals[index.toNat]? = some value) :
    steps engine (.localGet index :: rest) ⟨memory, locals, stack⟩ =
      steps engine rest ⟨memory, locals, value :: stack⟩ := by
  have stepped : step engine (.localGet index) ⟨memory, locals, stack⟩ =
      .ok ⟨memory, locals, value :: stack⟩ := by
    rw [step]
    simp only [found]
  rw [steps, List.foldlM_cons, stepped]
  rfl

theorem steps_set {index : UInt32} {value : Value} (inside : index.toNat < locals.length) :
    steps engine (.localSet index :: rest) ⟨memory, locals, value :: stack⟩ =
      steps engine rest ⟨memory, locals.set index.toNat value, stack⟩ := by
  have stepped : step engine (.localSet index) ⟨memory, locals, value :: stack⟩ =
      .ok ⟨memory, locals.set index.toNat value, stack⟩ := if_pos inside
  rw [steps, List.foldlM_cons, stepped]
  rfl

end Rows

/-- A conditional whose condition is not zero, and one whose condition is. -/
theorem comes_if {result : Option ValType} {then_ otherwise : List Ins} {condition : Int32}
    {locals stack : List Value}
    (comes : Comes engine (if condition ≠ 0 then then_ else otherwise) ⟨memory, locals, []⟩
      next) :
    Comes engine [.if_ result then_ otherwise] ⟨memory, locals, .i32 condition :: stack⟩
      (next.leave result stack) := by
  refine runs_if_i32.mpr (comes.mono ?_)
  rintro _ rfl
  exact runs_nil.mpr rfl

/-! ## Traps -/

/-- A run that stops with a trap, and the memory it has where it does. -/
inductive Stops (engine : Engine) : List Ins → Machine → Trap → Memory → Prop
  | here {instruction : Ins} {rest : List Ins} {machine : Machine} {trap : Trap} :
      instruction.plain = true → step engine instruction machine = .error trap →
      Stops engine (instruction :: rest) machine trap machine.memory
  | after {first rest : List Ins} {machine next : Machine} {trap : Trap} {memory : Memory} :
      Comes engine first machine next → Stops engine rest next trap memory →
      Stops engine (first ++ rest) machine trap memory
  | if_ {result : Option ValType} {then_ otherwise rest : List Ins} {condition : Int32}
      {held memory : Memory} {locals stack : List Value} {trap : Trap} :
      Stops engine (if condition ≠ 0 then then_ else otherwise) ⟨held, locals, []⟩ trap
        memory →
      Stops engine (.if_ result then_ otherwise :: rest)
        ⟨held, locals, .i32 condition :: stack⟩ trap memory

end Deed.Wasm
