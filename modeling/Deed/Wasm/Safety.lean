import Deed.Wasm.Accepted
import Deed.Wasm.Logic

/-!
# Running what validation accepts

The checker of bodies is sound for the machine.  Every value that a run finds on the stack or
in a local has the type that the rules give it there, so an accepted module never runs into
an instruction that has nothing to work on.
-/

namespace Deed.Wasm

def Value.ty : Value → ValType
  | .i32 _ => .i32
  | .i64 _ => .i64

def typesOf (values : List Value) : List ValType := values.map Value.ty

/-- A trap of the program's own, not of a machine that is stuck. -/
def Trap.Own (trap : Trap) : Prop := trap ≠ .invalid

/-- A machine in the middle of a body: its locals are of their types, and its stack is. -/
structure Machine.Typed (context : Context) (types : List ValType) (machine : Machine) : Prop where
  locals : typesOf machine.locals = context.locals
  stack : typesOf machine.stack = types

/-- What a body may come to that takes its stack to `after`. -/
def Outcome.Typed (context : Context) (after : List ValType) : Outcome → Prop
  | .normal machine => machine.Typed context after
  | .branch depth machine => ∃ label under, context.labels[depth]? = some label ∧
      machine.Typed context (label.reverse ++ under)
  | .returned machine => ∃ under, typesOf machine.stack = context.results.reverse ++ under
  | .trapped trap => trap.Own

/-- What one instruction may come to. -/
def Kept (context : Context) (types : List ValType) : Except Trap Machine → Prop
  | .ok machine => machine.Typed context types
  | .error trap => trap.Own

variable {engine : Engine} {context : Context} {machine : Machine} {instruction : Ins}
  {operands results under after types : List ValType}

theorem typesOf_i32 {values : List Value} (typed : typesOf values = .i32 :: types) :
    ∃ number rest, values = .i32 number :: rest ∧ typesOf rest = types := by
  obtain ⟨number | number, rest, rfl, ty, more⟩ := List.map_eq_cons_iff.mp typed
  · exact ⟨number, rest, rfl, more⟩
  · exact absurd ty (by simp [Value.ty])

theorem typesOf_i64 {values : List Value} (typed : typesOf values = .i64 :: types) :
    ∃ number rest, values = .i64 number :: rest ∧ typesOf rest = types := by
  obtain ⟨number | number, rest, rfl, ty, more⟩ := List.map_eq_cons_iff.mp typed
  · exact absurd ty (by simp [Value.ty])
  · exact ⟨number, rest, rfl, more⟩

theorem kept_accessed {α : Type} {found : Option α} {next : α → Machine}
    (typed : ∀ a, (next a).Typed context types) : Kept context types (accessed found next) := by
  cases found with
  | none => rintro ⟨⟩
  | some a => exact typed a

theorem Takes.plain {memory : Bool} (takes : Takes instruction memory operands results) :
    instruction.plain = true := by
  cases takes with
  | i32Binary listed | i64Binary listed | i64Compare listed => fin_cases listed <;> rfl
  | _ => rfl

/-- An instruction that takes some types from the stack and leaves others there does so. -/
theorem step_takes {memory : Bool} (takes : Takes instruction memory operands results)
    (typed : machine.Typed context (operands ++ under)) :
    Kept context (results ++ under) (step engine instruction machine) := by
  rcases machine with ⟨cells, locals, stack⟩
  obtain ⟨fits, typed⟩ := typed
  cases takes with
  | nop => exact ⟨fits, typed⟩
  | i32Const value | i64Const value | memorySize => exact ⟨fits, congrArg (List.cons _) typed⟩
  | i32Binary listed =>
      obtain ⟨right, rest, rfl, typed'⟩ := typesOf_i32 typed
      obtain ⟨left, rest, rfl, below⟩ := typesOf_i32 typed'
      fin_cases listed <;> exact ⟨fits, congrArg (List.cons _) below⟩
  | i64Binary listed =>
      obtain ⟨right, rest, rfl, typed'⟩ := typesOf_i64 typed
      obtain ⟨left, rest, rfl, below⟩ := typesOf_i64 typed'
      fin_cases listed
      case «4» | «5» =>
        simp only [step, arithmetic]
        split_ifs <;> first | exact ⟨fits, congrArg (List.cons _) below⟩ | rintro ⟨⟩
      all_goals exact ⟨fits, congrArg (List.cons _) below⟩
  | i64Compare listed =>
      obtain ⟨right, rest, rfl, typed'⟩ := typesOf_i64 typed
      obtain ⟨left, rest, rfl, below⟩ := typesOf_i64 typed'
      fin_cases listed <;> exact ⟨fits, congrArg (List.cons _) below⟩
  | i32Eqz | i64ExtendI32S =>
      obtain ⟨value, rest, rfl, below⟩ := typesOf_i32 typed
      exact ⟨fits, congrArg (List.cons _) below⟩
  | i64Eqz | i32WrapI64 =>
      obtain ⟨value, rest, rfl, below⟩ := typesOf_i64 typed
      exact ⟨fits, congrArg (List.cons _) below⟩
  | i32Load offset | i32Load8U offset | i64Load offset =>
      obtain ⟨address, rest, rfl, below⟩ := typesOf_i32 typed
      exact kept_accessed fun _ => ⟨fits, congrArg (List.cons _) below⟩
  | i32Store offset | i32Store8 offset =>
      obtain ⟨value, rest, rfl, typed'⟩ := typesOf_i32 typed
      obtain ⟨address, rest, rfl, below⟩ := typesOf_i32 typed'
      exact kept_accessed fun _ => ⟨fits, below⟩
  | i64Store offset =>
      obtain ⟨value, rest, rfl, typed'⟩ := typesOf_i64 typed
      obtain ⟨address, rest, rfl, below⟩ := typesOf_i32 typed'
      exact kept_accessed fun _ => ⟨fits, below⟩
  | memoryGrow =>
      obtain ⟨pages, rest, rfl, below⟩ := typesOf_i32 typed
      simp only [step]
      split <;> exact ⟨fits, congrArg (List.cons _) below⟩

theorem typesOf_take {values : List Value} {front : List ValType}
    (typed : typesOf values = front ++ under) : typesOf (values.take front.length) = front := by
  rw [typesOf, List.map_take, ← typesOf, typed, List.take_left]

theorem typesOf_drop {values : List Value} {front : List ValType}
    (typed : typesOf values = front ++ under) : typesOf (values.drop front.length) = under := by
  rw [typesOf, List.map_drop, ← typesOf, typed, List.drop_left]

theorem typesOf_append (front back : List Value) :
    typesOf (front ++ back) = typesOf front ++ typesOf back := List.map_append

/-! ## Blocks -/

section Blocks

variable {outcome last : Outcome} {result : Option ValType} {outer : List Value}
  {next : Machine → Option Outcome}

/-- A block leaves its result on the stack around it, when a branch to it has just that. -/
theorem leave_typed {label : List ValType}
    (typed : outcome.Typed (context.inside label) result.toList)
    (front : ∀ machine, outcome = .branch 0 machine → label = result.toList)
    (stack : typesOf outer = under) :
    (outcome.leave result outer).Typed context (result.toList ++ under) := by
  have kept {machine : Machine} {below : List ValType}
      (typed : machine.Typed (context.inside label) (result.toList ++ below)) :
      (machine.leave result outer).Typed context (result.toList ++ under) := by
    refine ⟨typed.locals, ?_⟩
    rw [Machine.leave, typesOf_append, typesOf_take typed.stack, stack]
  rcases outcome with machine | ⟨_ | depth, machine⟩ | machine | trap
  · exact @kept _ [] (by rwa [List.append_nil])
  · obtain ⟨other, below, found, typed⟩ := typed
    have same : other = result.toList := (Option.some.inj found).symm.trans (front machine rfl)
    have reversed : result.toList.reverse = result.toList := by cases result <;> rfl
    rw [same, reversed] at typed
    exact kept typed
  · obtain ⟨other, below, found, typed⟩ := typed
    exact ⟨other, below, found, typed.locals, typed.stack⟩
  · exact typed
  · exact typed

theorem andThen_typed (typed : outcome.Typed context types)
    (then_ : ∀ machine, machine.Typed context types → next machine = some last →
      last.Typed context after) (ended : outcome.andThen next = some last) :
    last.Typed context after := by
  cases outcome with
  | normal machine => exact then_ machine typed ended
  | _ =>
      rw [← Option.some.inj ended]
      exact typed

theorem proceed_typed {stepped : Except Trap Machine} (kept : Kept context types stepped)
    (then_ : ∀ machine, machine.Typed context types → next machine = some last →
      last.Typed context after) (ended : proceed stepped next = some last) :
    last.Typed context after := by
  cases stepped with
  | ok machine => exact then_ machine kept ended
  | error trap =>
      rw [← Option.some.inj ended]
      exact kept

end Blocks

/-! ## Calls -/

/-- A function by its index: what the host offers, or a function of the module. -/
theorem signature_cases {module : Module} {index : Nat} {ty : FuncType}
    (found : module.signature index = some ty) :
    (∃ import_, module.imports[index]? = some import_ ∧
      module.types[import_.typeIndex.toNat]? = some ty) ∨
    ∃ func ∈ module.funcs, module.types[func.typeIndex.toNat]? = some ty ∧
      module.function index = .ok (ty, func) := by
  rw [Module.signature] at found
  obtain ⟨typeIndex, listed, there⟩ := Option.bind_eq_some_iff.mp found
  by_cases imported : index < module.imports.length
  · left
    rw [List.getElem?_append_left (by rwa [List.length_map]), List.getElem?_map] at listed
    obtain ⟨import_, at_, rfl⟩ := Option.map_eq_some_iff.mp listed
    exact ⟨import_, at_, there⟩
  · right
    have past : module.imports.length ≤ index := Nat.le_of_not_lt imported
    rw [List.getElem?_append_right (by rwa [List.length_map]), List.length_map,
      List.getElem?_map] at listed
    obtain ⟨func, at_, rfl⟩ := Option.map_eq_some_iff.mp listed
    refine ⟨func, List.mem_of_getElem? at_, there, ?_⟩
    rw [Module.function, if_neg imported, at_]
    simp only [there]

theorem reached_cases {module : Module} {slot : Int32} {ty : UInt32} :
    (∃ index, module.reached slot ty = .ok index ∧
      module.signature index = module.types[ty.toNat]?) ∨
    ∃ trap, module.reached slot ty = .error trap ∧ trap.Own := by
  rw [Module.reached]
  split
  · exact Or.inr ⟨_, rfl, by rintro ⟨⟩⟩
  · split
    · next same => exact Or.inl ⟨_, rfl, same⟩
    · exact Or.inr ⟨_, rfl, by rintro ⟨⟩⟩

/-- A function of the host that answers with values of the type it is imported at, or traps
for a reason of its own. -/
structure HostFn.Keeps (answer : HostFn) (signature : FuncType) : Prop where
  answers : ∀ arguments memory value left, typesOf arguments = signature.params →
    answer arguments memory = .ok (value, left) → typesOf value.toList = signature.results.reverse
  owns : ∀ arguments memory trap, typesOf arguments = signature.params →
    answer arguments memory = .error trap → trap.Own

/-- The host keeps to the types of what it offers. -/
def Engine.HostKeeps (engine : Engine) : Prop :=
  ∀ import_ answer signature, engine.host import_ = some answer →
    engine.module.types[import_.typeIndex.toNat]? = some signature → answer.Keeps signature

/-- What the checker answers for, and what the host has to. -/
structure Engine.Safe (engine : Engine) : Prop where
  funcs : ∀ func ∈ engine.module.funcs, engine.module.Typed func
  host : engine.HostKeeps

/-- A context of the module's own types and functions. -/
def Context.Of (context : Context) (module : Module) : Prop :=
  context.types = module.types ∧
    context.functions = module.imports.map (·.typeIndex) ++ module.funcs.map (·.typeIndex)

theorem Machine.Typed.found {ty : ValType} {index : UInt32} (typed : machine.Typed context types)
    (found : context.locals[index.toNat]? = some ty) :
    ∃ value, machine.locals[index.toNat]? = some value ∧ value.ty = ty := by
  rw [← typed.locals, typesOf, List.getElem?_map] at found
  exact Option.map_eq_some_iff.mp found

theorem Machine.Typed.set {value : Value} {index : UInt32} (typed : machine.Typed context types)
    (found : context.locals[index.toNat]? = some value.ty) :
    index.toNat < machine.locals.length ∧
      typesOf (machine.locals.set index.toNat value) = context.locals := by
  obtain ⟨below, is⟩ := List.getElem?_eq_some_iff.mp found
  have length := congrArg List.length typed.locals
  rw [typesOf, List.length_map] at length
  refine ⟨by omega, ?_⟩
  rw [typesOf, List.map_set, ← typesOf, typed.locals, ← is, List.set_getElem_self]

theorem Context.Of.inside {module : Module} (of : context.Of module) (label : List ValType) :
    (context.inside label).Of module := of

theorem Machine.Typed.inside {label : List ValType} (typed : machine.Typed context types) :
    ({ machine with stack := [] } : Machine).Typed (context.inside label) [] :=
  ⟨typed.locals, rfl⟩

/-- What a call takes from the stack: the arguments, the last one on top. -/
theorem Machine.Typed.arguments {params : List ValType}
    (typed : machine.Typed context (params.reverse ++ under)) :
    typesOf (machine.stack.take params.length).reverse = params := by
  have taken := typesOf_take typed.stack
  rw [List.length_reverse] at taken
  rw [typesOf, List.map_reverse, ← typesOf, taken, List.reverse_reverse]

theorem Machine.Typed.below {params : List ValType}
    (typed : machine.Typed context (params.reverse ++ under)) :
    typesOf (machine.stack.drop params.length) = under := by
  have dropped := typesOf_drop typed.stack
  rwa [List.length_reverse] at dropped

def Sound (engine : Engine) (fuel : Nat) : Prop :=
  ∀ ⦃context : Context⦄, context.Of engine.module →
    ∀ ⦃body : List Ins⦄ ⦃before after : List ValType⦄ ⦃machine : Machine⦄ ⦃last : Outcome⦄,
      HasTypes context body before after → machine.Typed context before →
      exec engine fuel body machine = some last → last.Typed context after

/-- How a function ends, for the code that called it. -/
theorem answer_typed {signature : FuncType} {callee : Context} {outcome : Outcome}
    (labels : callee.labels = [signature.results]) (results : callee.results = signature.results)
    (ended : outcome.Typed callee signature.results.reverse)
    (typed : machine.Typed context (signature.params.reverse ++ under)) :
    (outcome.answer signature machine).Typed context (signature.results.reverse ++ under) := by
  have resumed {left : Machine} {below : List ValType}
      (stack : typesOf left.stack = signature.results.reverse ++ below) :
      (machine.resume left signature).Typed context (signature.results.reverse ++ under) := by
    have taken := typesOf_take stack
    rw [List.length_reverse] at taken
    refine ⟨typed.locals, ?_⟩
    rw [Machine.resume, typesOf_append, taken, typed.below]
  rcases outcome with left | ⟨depth, left⟩ | left | trap
  · exact @resumed _ [] (ended.stack.trans (List.append_nil _).symm)
  · obtain ⟨label, below, found, ended⟩ := ended
    rw [labels, List.getElem?_singleton] at found
    split at found
    · rw [← Option.some.inj found] at ended
      exact resumed ended.stack
    · cases found
  · obtain ⟨below, stack⟩ := ended
    rw [results] at stack
    exact resumed stack
  · exact ended

variable {fuel : Nat} {rest : List Ins} {last : Outcome}

/-- A call of a function at its type, and the code after it. -/
theorem Sound.invoke (sound : Sound engine fuel) (safe : engine.Safe)
    (of : context.Of engine.module) {index : Nat} {signature : FuncType}
    (found : engine.module.signature index = some signature)
    (typed : machine.Typed context (signature.params.reverse ++ under))
    (more : HasTypes context rest (signature.results.reverse ++ under) after)
    (ended : invoke engine index machine (exec engine fuel) (exec engine fuel rest) = some last) :
    last.Typed context after := by
  rw [Deed.Wasm.invoke] at ended
  rcases signature_cases found with ⟨import_, listed, there⟩ | ⟨func, listed, there, at_⟩
  · rw [Engine.imported, listed, Option.map_some] at ended
    refine proceed_typed ?_ (fun _ typed ended => sound of more typed ended) ended
    rw [there]
    cases offered : engine.host import_ with
    | none => rintro ⟨⟩
    | some answer =>
        have keeps := safe.host import_ answer signature offered there
        simp only
        cases answered : answer (machine.stack.take signature.params.length).reverse
            machine.memory with
        | ok pair =>
            refine ⟨typed.locals, ?_⟩
            rw [typesOf_append, typed.below]
            exact congrArg (· ++ under) (keeps.answers _ _ _ _ typed.arguments answered)
        | error trap => exact keeps.owns _ _ _ typed.arguments answered
  · rw [imported_none at_, at_] at ended
    obtain ⟨outcome, first, after_⟩ := Option.bind_eq_some_iff.mp ended
    obtain ⟨signature', there', body⟩ := safe.funcs func listed
    cases there.symm.trans there'
    have enters : (machine.enter signature func).Typed
        (engine.module.context signature func).withTable [] := by
      refine ⟨?_, rfl⟩
      have zeros : typesOf (func.locals.map Value.zero) = func.locals := by
        rw [typesOf, List.map_map]
        exact (List.map_congr_left fun ty _ => by cases ty <;> rfl).trans (List.map_id _)
      rw [Machine.enter, typesOf_append, zeros, typed.arguments]
      rfl
    have came := sound ⟨rfl, rfl⟩ body enters first
    exact andThen_typed (answer_typed rfl rfl came typed)
      (fun _ typed ended => sound of more typed ended) after_

/-! ## Bodies -/

/-- A typed body keeps the types of what it works on, and never gets stuck. -/
theorem exec_typed (safe : engine.Safe) (fuel : Nat) : Sound engine fuel := by
  induction fuel with
  | zero =>
      intro context of body before after machine last typed fits ended
      exact absurd ended.symm (Option.some_ne_none _)
  | succ fuel ih =>
      intro context of body before after machine last typed fits ended
      have goes {rest : List Ins} {types : List ValType} (more : HasTypes context rest types after)
          (machine : Machine) (fits : machine.Typed context types)
          (ended : exec engine fuel rest machine = some last) : last.Typed context after :=
        ih of more fits ended
      cases typed with
      | nil => rw [← Option.some.inj ended]; exact fits
      | cons first more =>
          rename_i instruction rest operands results under
          rcases machine with ⟨memory, locals, stack⟩
          cases first with
          | plain takes =>
              rw [exec, round_plain takes.plain] at ended
              exact proceed_typed (step_takes takes fits) (goes more) ended
          | marked typed => exact ih of (.cons typed more) fits ended
          | unreachable =>
              rw [← Option.some.inj ended]
              rintro ⟨⟩
          | drop =>
              obtain ⟨value, stack, rfl, -, below⟩ := List.map_eq_cons_iff.mp fits.stack
              exact goes more ⟨memory, locals, stack⟩ ⟨fits.locals, below⟩ ended
          | localGet found =>
              obtain ⟨value, there, ty⟩ := fits.found found
              rw [exec, round_plain rfl, step, there] at ended
              exact goes more ⟨memory, locals, value :: stack⟩
                ⟨fits.locals, congrArg₂ List.cons ty fits.stack⟩ ended
          | localSet found =>
              obtain ⟨value, stack, rfl, rfl, below⟩ := List.map_eq_cons_iff.mp fits.stack
              obtain ⟨inside, kept⟩ := fits.set found
              rw [exec, round_plain rfl, step, if_pos inside] at ended
              · exact goes more ⟨memory, locals.set _ value, stack⟩ ⟨kept, below⟩ ended
              · rfl
          | localTee found =>
              obtain ⟨value, stack, rfl, rfl, below⟩ := List.map_eq_cons_iff.mp fits.stack
              obtain ⟨inside, kept⟩ := fits.set found
              rw [exec, round_plain rfl, step, if_pos inside] at ended
              · exact goes more ⟨memory, locals.set _ value, _⟩ ⟨kept, fits.stack⟩ ended
              · rfl
          | block typed =>
              obtain ⟨outcome, first, after_⟩ := Option.bind_eq_some_iff.mp ended
              have came := ih (of.inside _) typed fits.inside first
              exact andThen_typed (leave_typed came (fun _ _ => rfl) fits.stack) (goes more) after_
          | loop typed =>
              obtain ⟨outcome, first, after_⟩ := Option.bind_eq_some_iff.mp ended
              have came := ih (of.inside _) typed fits.inside first
              rcases outcome with next | ⟨_ | depth, next⟩ | next | trap
              case branch.zero =>
                obtain ⟨_, _, _, came⟩ := came
                have restarts : ({ next with stack } : Machine).Typed context _ :=
                  ⟨came.locals, fits.stack⟩
                exact ih of (.cons (.loop typed) more) restarts after_
              all_goals
                have left := leave_typed came (by rintro _ ⟨⟩) fits.stack
                exact andThen_typed left (goes more) after_
          | @if_ _ result then_ otherwise thens otherwises =>
              obtain ⟨condition, stack, rfl, below⟩ := typesOf_i32 fits.stack
              obtain ⟨outcome, first, after_⟩ := Option.bind_eq_some_iff.mp ended
              have arm : HasTypes (context.inside result.toList)
                  (if condition ≠ 0 then then_ else otherwise) [] result.toList := by
                split
                · exact thens
                · exact otherwises
              have came := ih (of.inside _) arm fits.inside first
              exact andThen_typed (leave_typed came (fun _ _ => rfl) below) (goes more) after_
          | @br _ _ label below _ found =>
              rw [← Option.some.inj ended]
              exact ⟨_, below ++ under, found, fits.locals,
                fits.stack.trans (List.append_assoc ..)⟩
          | brIf found =>
              obtain ⟨condition, stack, rfl, below⟩ := typesOf_i32 fits.stack
              rw [exec, round] at ended
              split at ended
              · rw [← Option.some.inj ended]
                exact ⟨_, _, found, fits.locals, below⟩
              · exact goes more ⟨memory, locals, stack⟩ ⟨fits.locals, below⟩ ended
          | return_ =>
              rw [← Option.some.inj ended]
              exact ⟨_, by rw [fits.stack, List.append_assoc]⟩
          | call found =>
              refine Sound.invoke ih safe of ?_ fits more ended
              rwa [Module.signature, ← of.1, ← of.2]
          | callIndirect table found =>
              obtain ⟨slot, stack, rfl, below⟩ := typesOf_i32 fits.stack
              rw [exec, round] at ended
              rcases @reached_cases engine.module slot _ with ⟨index, is, same⟩ | ⟨trap, is, own⟩
              · rw [is] at ended
                have signature := same.trans (of.1 ▸ found)
                have called : (⟨memory, locals, stack⟩ : Machine).Typed context _ :=
                  ⟨fits.locals, below⟩
                exact Sound.invoke ih safe of signature called more ended
              · rw [is] at ended
                rw [← Option.some.inj ended]
                exact own

/-- A module whose only function answers with its argument. -/
def echo : Module :=
  { callsThroughNothing with
    types := [⟨[.i64], [.i64]⟩]
    funcs := [⟨0, [], [.localGet 0]⟩] }

end Deed.Wasm
