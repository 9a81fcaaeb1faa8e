import Deed.Eval.Balance

/-!
# Handlers come off as they went on

What a `with` installs, and what it leaves.  An entry installs the handler that it names,
unless its state cannot be made; what the body and the `finally` blocks run changes no
handler but in its state, so taking off what was put on leaves what stood before.  With
that every evaluation is steady.
-/

namespace Deed.Eval

open Deed.Ast
open Deed.Library
open Action

variable {World : Type} {α β : Type}

/-! ## Handlers -/

/-- What an entry of a `with` names. -/
structure Named where
  handler : DefId
  home : Nat
  effect : Origin
  /-- The `finally` block that the handler declares. -/
  finallyBlock : Option Block

/-- What is installed for a handler, its state aside. -/
def Named.instance (named : Named) : Instance :=
  ⟨named.handler, named.home, named.effect, []⟩

def Named.identity (named : Named) : DefId × Nat × Origin := named.instance.identity

/-- The handler that an entry of a `with` names, written in the module `current`. -/
def namedBy (program : Program) (current : Nat) (expr : Expr) : Option Named := do
  let code ← program.modules[current]?
  let definition ← handlerDef code (handlerParts expr).1
  let found ← program.handlerAt current code definition
  let effect ← implemented program found.1 found.2.2
  some ⟨found.2.1, found.1, effect, found.2.2.finallyBlock⟩

/-- The same run with more handlers on top. -/
def Interp.above (interp : Interp World) (more : List Instance) : Interp World :=
  { interp with handlers := interp.handlers ++ more }

theorem above_nil (interp : Interp World) : interp.above [] = interp := by
  rw [Interp.above, List.append_nil]

theorem installed_above (interp : Interp World) (more : List Instance) :
    (interp.above more).installed = interp.installed ++ more.map Instance.identity :=
  List.map_append

theorem Balanced.above {before after : Interp World} (balanced : Balanced before after)
    {more others : List Instance}
    (same : more.map Instance.identity = others.map Instance.identity) :
    Balanced (before.above more) (after.above others) := by
  refine { balanced with installed := ?_ }
  rw [installed_above, installed_above, balanced.installed, same]

/-- Without what a `with` installed, the stacks are as they were. -/
theorem Balanced.taken {before after : Interp World} {more : List Instance}
    (balanced : Balanced (before.above more) after) :
    Balanced before
      { after with handlers := after.handlers.take before.handlers.length } := by
  refine { balanced with installed := ?_ }
  show (after.handlers.take _).map Instance.identity = _
  rw [List.map_take]
  show after.installed.take _ = _
  rw [balanced.installed, installed_above]
  exact List.take_left' (List.length_map ..)

section Handlers

variable (program : Program) (outside : Outside World) {eval : Expr → Eval World Value}
  (steady : ∀ expr, Steady (eval expr))

theorem here_cases {state later : Interp World} {ended : Except Signal Code}
    (ran : here program state = some (ended, later)) :
    ∃ code, program.modules[state.current]? = some code ∧ ended = .ok code ∧ later = state := by
  unfold here at ran
  split at ran
  · next code found =>
      rcases Prod.mk.inj (Option.some.inj ran) with ⟨rfl, rfl⟩
      exact ⟨code, found, rfl, rfl⟩
  · exact absurd ran.symm (Option.some_ne_none _)

theorem here_bind_cases {next : Code → Eval World β} {state later : Interp World}
    {ended : Except Signal β} (ran : (here program >>= next) state = some (ended, later)) :
    ∃ code, program.modules[state.current]? = some code ∧
      next code state = some (ended, later) := by
  rcases bind_cases ran with ⟨code, between, done, went⟩ | ⟨signal, done, -⟩
  · rcases here_cases program done with ⟨found, at_current, same, rfl⟩
    rw [Except.ok.inj same] at went
    exact ⟨found, at_current, went⟩
  · rcases here_cases program done with ⟨found, -, impossible, -⟩
    cases impossible

theorem handlerInstalled_bind_cases {index : Nat} {next : Instance → Eval World β}
    {state later : Interp World} {ended : Except Signal β}
    (ran : (handlerInstalled index >>= next) state = some (ended, later)) :
    ∃ found, state.handlers[index]? = some found ∧ next found state = some (ended, later) := by
  cases at_index : state.handlers[index]? with
  | none =>
      have none_ : handlerInstalled index state = none := by
        rw [handlerInstalled, at_index]
      rw [run_bind_none none_] at ran
      exact absurd ran.symm (Option.some_ne_none _)
  | some found =>
      have done : handlerInstalled index state = some (.ok found, state) := by
        rw [handlerInstalled, at_index]
      rw [run_bind_ok done] at ran
      exact ⟨found, rfl, ran⟩

theorem notRunnable_cases {span : Span} {what : String} {state later : Interp World}
    {ended : Except Signal α}
    (ran : notRunnable program span what state = some (ended, later)) :
    ∃ signal, ended = .error signal ∧ Balanced state later := by
  have balanced := notRunnable_steady program span what ran
  rcases here_bind_cases program ran with ⟨code, -, ran⟩
  exact ⟨_, (Prod.mk.inj (Option.some.inj ran)).1.symm, balanced⟩

include steady

theorem installFound_cases {code : Code} {expr : Expr} {home : Nat} {handler : DefId}
    {declaration : HandlerDecl} {state later : Interp World} {ended : Except Signal Unit}
    (ran : installFound program eval code expr home handler declaration state =
      some (ended, later)) :
    (∃ signal, ended = .error signal ∧ Balanced state later) ∨
      (ended = .ok () ∧ ∃ effect between fields,
        implemented program home declaration = some effect ∧ Balanced state between ∧
        later = between.above [⟨handler, home, effect, fields⟩]) := by
  rcases bind_cases ran with ⟨fields, between, done, ran⟩ | ⟨signal, done, rfl⟩
  case inr => exact Or.inl ⟨signal, rfl, evalFields_steady program steady _ _ done⟩
  have balanced := evalFields_steady program steady _ _ done
  cases missing : missingField declaration fields with
  | some field =>
      rw [missing] at ran
      rcases Prod.mk.inj (Option.some.inj ran) with ⟨rfl, rfl⟩
      exact Or.inl ⟨_, rfl, balanced⟩
  | none =>
      rw [missing] at ran
      cases effect : implemented program home declaration with
      | none =>
          rw [effect] at ran
          rcases notRunnable_cases program ran with ⟨signal, failed, after⟩
          exact Or.inl ⟨signal, failed, balanced.trans after⟩
      | some origin =>
          rw [effect] at ran
          rcases Prod.mk.inj (Option.some.inj ran) with ⟨rfl, rfl⟩
          exact Or.inr ⟨rfl, origin, between, fields, rfl, balanced, rfl⟩

/-- An entry of a `with` installs the handler that it names on top of the others, unless
its state cannot be made. -/
theorem install_cases {expr : Expr} {state later : Interp World} {ended : Except Signal Unit}
    (ran : install program eval expr state = some (ended, later)) :
    (∃ signal, ended = .error signal ∧ Balanced state later) ∨
      (ended = .ok () ∧ ∃ named between fields,
        namedBy program state.current expr = some named ∧ Balanced state between ∧
        later = between.above [⟨named.handler, named.home, named.effect, fields⟩]) := by
  rcases here_bind_cases program ran with ⟨code, at_current, ran⟩
  rw [run_look_bind] at ran
  cases found : (handlerDef code (handlerParts expr).1).bind
      (program.handlerAt state.current code) with
  | none =>
      rw [found] at ran
      exact Or.inl (notRunnable_cases program ran)
  | some entry =>
      rcases entry with ⟨home, handler, declaration⟩
      rw [found] at ran
      rcases installFound_cases program steady ran with
        failed | ⟨rfl, effect, between, fields, implements, balanced, rfl⟩
      · exact Or.inl failed
      · refine Or.inr ⟨rfl, ⟨handler, home, effect, declaration.finallyBlock⟩, between,
          fields, ?_, balanced, rfl⟩
        rcases Option.bind_eq_some_iff.1 found with ⟨definition, refers, at_definition⟩
        simp [namedBy, at_current, refers, at_definition, implements]

/-- The entries of a `with` install what they name, one on top of the other, up to the
first whose state cannot be made. -/
theorem installAll_cases {exprs : List Expr} {state later : Interp World}
    {ended : Except Signal Unit}
    (ran : installAll program eval exprs state = some (ended, later)) :
    ∃ named : List Named,
      named.map some = (exprs.take named.length).map (namedBy program state.current) ∧
      (ended = .ok () → named.length = exprs.length) ∧
      Balanced (state.above (named.map Named.instance)) later := by
  induction exprs generalizing state with
  | nil =>
      rcases Prod.mk.inj (Option.some.inj ran) with ⟨-, rfl⟩
      refine ⟨[], rfl, fun _ => rfl, ?_⟩
      rw [List.map_nil, above_nil]
      exact Balanced.refl state
  | cons head rest ih =>
      rcases bind_cases ran with ⟨_, between, done, ran⟩ | ⟨signal, done, rfl⟩
      · rcases install_cases program steady done with
          ⟨signal, impossible, -⟩ | ⟨-, first, reached, fields, refers, balanced, rfl⟩
        · cases impossible
        · rcases ih ran with ⟨more, names, whole, after⟩
          refine ⟨first :: more, ?_, ?_, ?_⟩
          · rw [List.map_cons, List.length_cons, List.take_succ_cons, List.map_cons, refers,
              names]
            show _ :: _ = _ :: List.map (namedBy program state.current) _
            rw [← balanced.current]
            rfl
          · intro finished
            rw [List.length_cons, whole finished, List.length_cons]
          · have stands : Balanced (state.above [first.instance])
                (reached.above [⟨first.handler, first.home, first.effect, fields⟩]) :=
              balanced.above rfl
            have aligned : Balanced
                ((state.above [first.instance]).above (more.map Named.instance))
                ((reached.above [⟨first.handler, first.home, first.effect, fields⟩]).above
                  (more.map Named.instance)) :=
              stands.above rfl
            have both := aligned.trans after
            rw [Interp.above, Interp.above, List.append_assoc] at both
            exact both
      · rcases install_cases program steady done with
          ⟨-, -, balanced⟩ | ⟨impossible, -⟩
        · refine ⟨[], rfl, ?_, ?_⟩
          · intro impossible
            cases impossible
          · rw [List.map_nil, above_nil]
            exact balanced
        · cases impossible

omit steady in
theorem finallyBlocks_ends {bodyFailed : Bool} {indices : List Nat}
    {outcome : Except Signal Value} {state later : Interp World}
    {ended : Except Signal (Except Signal Value)}
    (ran : finallyBlocks program outside eval bodyFailed indices outcome state =
      some (ended, later)) : ∃ outcome, ended = .ok outcome := by
  induction indices generalizing outcome state with
  | nil => exact ⟨outcome, (Prod.mk.inj (Option.some.inj ran)).1.symm⟩
  | cons index rest ih =>
      rcases handlerInstalled_bind_cases ran with ⟨found, -, ran⟩
      cases at_home : program.modules[found.home]? with
      | none =>
          rw [at_home] at ran
          exact absurd ran.symm (Option.some_ne_none _)
      | some there =>
          rw [at_home] at ran
          cases declared : (there.handlerDecl found.handler).bind HandlerDecl.finallyBlock with
          | none =>
              dsimp only at ran
              rw [declared] at ran
              exact ih ran
          | some block =>
              dsimp only at ran
              rw [declared] at ran
              rcases attempt_bind_cases ran with ⟨how, between, -, ran⟩
              exact ih ran

theorem runFinally_steady (index home : Nat) (block : Block) :
    Steady (runFinally program outside eval index home block) :=
  (inModule_steady home <| inFrame_steady [] <| inRow_steady (some index) none <|
    inHandler_steady index <| evalBlock_steady program outside steady block).attempt

theorem finallyBlocks_steady (bodyFailed : Bool) (indices : List Nat)
    (outcome : Except Signal Value) :
    Steady (finallyBlocks program outside eval bodyFailed indices outcome) := by
  induction indices generalizing outcome with
  | nil => exact Steady.pure _
  | cons index rest ih =>
      apply (handlerInstalled_steady index).bind
      intro found
      split
      · exact Steady.stuck
      · split
        · exact ih outcome
        · exact (runFinally_steady program outside steady _ _ _).bind fun _ => ih _

theorem runFinallyBlocks_steady (base : Nat) (incoming : Except Signal Value) :
    Steady (runFinallyBlocks program outside eval base incoming) :=
  (Steady.look _).bind fun _ => finallyBlocks_steady program outside steady _ _ _

omit steady in
theorem runFinallyBlocks_ends {base : Nat} {incoming : Except Signal Value}
    {state later : Interp World} {ended : Except Signal (Except Signal Value)}
    (ran : runFinallyBlocks program outside eval base incoming state = some (ended, later)) :
    ∃ outcome, ended = .ok outcome := by
  rw [runFinallyBlocks, run_look_bind] at ran
  exact finallyBlocks_ends program outside ran

/-- The handlers of a `with` and its body leave the handlers that were installed on top of
those that stood, however the body ended. -/
theorem entered_cases {handlers : List Expr} {body : Block} {state later : Interp World}
    {ended : Except Signal Value}
    (ran : (do
      installAll program eval handlers
      evalBlock program outside eval body : Eval World Value) state = some (ended, later)) :
    ∃ named : List Named,
      named.map some = (handlers.take named.length).map (namedBy program state.current) ∧
      Balanced (state.above (named.map Named.instance)) later := by
  rcases bind_cases ran with ⟨_, between, done, ran⟩ | ⟨signal, done, -⟩
  · rcases installAll_cases program steady done with ⟨named, names, -, balanced⟩
    exact ⟨named, names,
      balanced.trans (evalBlock_steady program outside steady body ran)⟩
  · rcases installAll_cases program steady done with ⟨named, names, -, balanced⟩
    exact ⟨named, names, balanced⟩

theorem evalWith_steady (handlers : List Expr) (body : Block) :
    Steady (evalWith program outside eval handlers body) := by
  intro state ended later ran
  rw [evalWith, run_look_bind] at ran
  rcases attempt_bind_cases ran with ⟨outcome, left, entered, ran⟩
  rcases entered_cases program outside steady entered with ⟨named, -, balanced⟩
  rcases bind_cases ran with ⟨result, cleaned, finished, ran⟩ | ⟨signal, finished, -⟩
  · have after := balanced.trans (runFinallyBlocks_steady program outside steady _ _ finished)
    rw [run_change_bind] at ran
    rcases Prod.mk.inj (Option.some.inj ran) with ⟨-, rfl⟩
    exact after.taken
  · rcases runFinallyBlocks_ends program outside finished with ⟨outcome, impossible⟩
    cases impossible

end Handlers

/-! ## Every expression -/

section Expressions

variable (program : Program) (outside : Outside World) {eval : Expr → Eval World Value}
  (steady : ∀ expr, Steady (eval expr))

theorem rebindMaybe_steady (ident : Option Ident) (value : Value) :
    Steady (rebindMaybe program ident value : Eval World Unit) := by
  cases ident with
  | none => exact Steady.pure ()
  | some ident => exact rebind_steady program ident value

include steady

theorem goesOn_steady (accumulator : Option Ident) (keep : Option Expr) (carried : Value) :
    Steady (goesOn program eval accumulator keep carried) := by
  cases keep with
  | none => exact Steady.pure _
  | some keep =>
      apply (rebindMaybe_steady program accumulator carried).bind
      intro bound
      apply (steady keep).bind
      intro held
      split
      · exact Steady.pure _
      · exact notRunnable_steady program _ _

theorem turns_steady (binder : Ident) (index accumulator : Option Ident)
    (keep : Option Expr) (body : Block) (position : Nat) (elements : List Value)
    (carried : Value) :
    Steady (turns program outside eval binder index accumulator keep body position elements
      carried) := by
  induction elements generalizing position carried with
  | nil => exact Steady.pure _
  | cons element rest ih =>
      apply (goesOn_steady program steady accumulator keep carried).bind
      intro goes
      split
      · apply (rebind_steady program _ _).bind
        intro _
        apply (rebindMaybe_steady program _ _).bind
        intro _
        apply (rebindMaybe_steady program _ _).bind
        intro _
        apply (evalBlock_steady program outside steady body).bind
        intro carried
        exact ih _ carried
      · exact Steady.pure _

theorem evalArms_steady (code : Code) (value : Value) (span : Span) (arms : List MatchArm) :
    Steady (evalArms program outside eval code value span arms) := by
  induction arms with
  | nil => exact fail_steady _
  | cons head rest ih =>
      cases head with
      | mk pattern body at_ =>
          unfold evalArms
          split
          · exact (bindPattern_steady program value pattern).bind fun _ => steady body
          · exact ih

theorem carriedFirst_steady (accumulator : Option (Ident × Expr)) :
    Steady (carriedFirst eval accumulator) := by
  unfold carriedFirst
  split
  · exact steady _
  · exact Steady.pure _

theorem evalInner_steady (expr : Expr) : Steady (evalInner program outside eval expr) := by
  cases expr with
  | int value span => exact Steady.pure _
  | str value span => exact Steady.pure _
  | bool value span => exact Steady.pure _
  | unit span => exact Steady.pure _
  | ident name => exact read_steady program name
  | field receiver name span =>
      apply (here_steady program).bind
      intro code
      split
      · exact Steady.pure _
      · split
        · exact Steady.pure _
        · exact (steady receiver).bind fun _ => field_steady program outside _ _ _
  | call callee args span => exact callExpr_steady program outside steady callee args span
  | list elements span => exact (evalAll_steady steady elements).bind fun _ => Steady.pure _
  | structLit path fields span => exact build_steady program steady path fields span
  | unary op operand span =>
      exact (steady operand).bind fun _ => valueUnary_steady program op _ span
  | binary op lhs rhs span => exact binary_steady program outside steady op lhs rhs span
  | «try» operand span =>
      apply (steady operand).bind
      intro value
      split
      · exact Steady.pure _
      · exact Steady.signal _
      · exact notRunnable_steady program _ _
  | «if» test thenBranch elseBranch span =>
      apply (condition_steady program steady test).bind
      intro taken
      split
      · exact evalBlock_steady program outside steady thenBranch
      · split
        · exact steady _
        · exact Steady.pure _
  | «match» scrutinee arms span =>
      exact (steady scrutinee).bind fun _ => (here_steady program).bind fun _ =>
        evalArms_steady program outside steady _ _ span arms
  | «for» binder index iterable accumulator keep body span =>
      apply (steady iterable).bind
      intro walked
      split
      · exact (carriedFirst_steady steady accumulator).bind fun _ =>
          turns_steady program outside steady _ _ _ _ _ _ _ _
      · exact notRunnable_steady program _ _
  | block inner => exact evalBlock_steady program outside steady inner
  | closure params body span => exact evalClosure_steady params body span
  | old inner span => exact evalOld_steady program span
  | unchanged effect span => exact evalUnchanged_steady program effect span
  | «with» handlers body span => exact evalWith_steady program outside steady handlers body
  | error span => exact notRunnable_steady program _ _

theorem makeGood_steady (expr : Expr) (value : Value) :
    Steady (makeGood program outside eval expr value) := by
  apply (here_steady program).bind
  intro code
  split
  · exact guard_steady program outside steady _ _ _
  · exact Steady.pure ()

theorem evalGuarded_steady (expr : Expr) :
    Steady (evalGuarded program outside eval expr) :=
  (evalInner_steady program outside steady expr).bind fun _ =>
    (makeGood_steady program outside steady expr _).bind fun _ => Steady.pure _

end Expressions

/-- The evaluator is steady, by induction on its limit. -/
theorem evaluate_steady (program : Program) (outside : Outside World) (limit : Nat)
    (expr : Expr) : Steady (evaluate program outside limit expr) := by
  induction limit generalizing expr with
  | zero => exact Steady.stuck
  | succ limit ih => exact evalGuarded_steady program outside ih expr

/-- Whichever way an expression or a block ends, the stacks of the run are what they were
before it. -/
theorem evaluation_restores (program : Program) (outside : Outside World) (limit : Nat)
    (state later : Interp World) (ended : Except Signal Value)
    (ran : (∃ expr, evaluate program outside limit expr state = some (ended, later)) ∨
      ∃ block, evalBlock program outside (evaluate program outside limit) block state =
        some (ended, later)) : Balanced state later := by
  rcases ran with ⟨expr, ran⟩ | ⟨block, ran⟩
  · exact evaluate_steady program outside limit expr ran
  · exact evalBlock_steady program outside (evaluate_steady program outside limit) block ran

/-! ### A call that its precondition refuses -/

namespace Refusing

/-- `fn never() -> () where false {}` -/
def never : FnDecl :=
  ⟨⟨⟨"never", ⟨3, 8⟩⟩, []⟩, ⟨[.bool false ⟨23, 28⟩], []⟩, .mk [] none ⟨29, 31⟩⟩

def code : Code where
  path := "a"
  file := 0
  resolutions := {
    definition := fun _ => ⟨.function, "never", none⟩
    resolution := fun span => if span.start = 50 then some 0 else none
    builtin := fun _ => none
    imports := fun _ => none
    importModule := fun _ => none }
  functions := [(0, never)]
  handlerDecls := []
  refinements := fun _ => none
  subjects := fun _ => none
  guards := fun _ => none
  rows := fun _ => none
  operators := fun _ => none
  stateNames := fun _ => none
  handlersDistinct := List.nodup_nil

def outside : Outside Unit where
  root := none
  reach := ⟨∅⟩
  perform := fun _ _ _ _ world => (.ok .unit, world)
  quoted := id
  lowercased := id

/-- Where a `test` block starts. -/
def start : Interp Unit := ⟨0, [[]], [], 0, [], [], [], [], [], 0, ()⟩

/-- `never()` -/
def refused : Expr := .call (.ident ⟨"never", ⟨50, 55⟩⟩) [] ⟨50, 57⟩

/-- What the call fails with. -/
def unsatisfied : Diagnostic :=
  (Diagnostic.error Codes.PRECONDITION_FAILED 0 ⟨50, 57⟩
      "this call does not satisfy what `never` requires").withPrimaryLabel
    "precondition not met" |>.withNote "a precondition failure is a bug in the caller"
    |>.withSecondaryIn 0 ⟨23, 28⟩ "the clause that failed"

end Refusing

open Refusing in
theorem evaluation_restores_refused : Balanced start start :=
  evaluation_restores ⟨[code], none⟩ Refusing.outside 3 start start
    (.error (.fail unsatisfied)) (Or.inl ⟨refused, rfl⟩)

end Deed.Eval
