import Deed.Eval.Evaluator

/-!
# Every evaluation puts back what it pushed

However an evaluation ends, the stacks of the run are as deep afterwards as before and
hold what they held: the frames under the running one, the rows, the captures, the
handlers that are installed (their state may have been assigned) and the marks of the
handler operations.  `Steady` says so of one evaluation; there is one lemma for each
function of the interpreter, and the evaluator's is by induction on its limit.
-/

namespace Deed.Eval

open Deed.Ast
open Deed.Library
open Action

variable {World : Type} {α β : Type}

/-- Which handler an instance is of, its state aside. -/
def Instance.identity (found : Instance) : DefId × Nat × Origin :=
  (found.handler, found.home, found.effect)

/-- Which handlers are installed, in the order they were installed. -/
def Interp.installed (interp : Interp World) : List (DefId × Nat × Origin) :=
  interp.handlers.map Instance.identity

/-- The stacks after are the stacks before. -/
structure Balanced (before after : Interp World) : Prop where
  current : after.current = before.current
  depth : after.frames.length = before.frames.length
  callers : after.frames.tail = before.frames.tail
  rows : after.rows = before.rows
  inContract : after.inContract = before.inContract
  installed : after.installed = before.installed
  insideHandler : after.insideHandler = before.insideHandler
  olds : after.olds = before.olds
  entryStates : after.entryStates = before.entryStates

namespace Balanced

theorem refl (interp : Interp World) : Balanced interp interp :=
  ⟨rfl, rfl, rfl, rfl, rfl, rfl, rfl, rfl, rfl⟩

theorem trans {first second third : Interp World} (one : Balanced first second)
    (other : Balanced second third) : Balanced first third where
  current := other.current.trans one.current
  depth := other.depth.trans one.depth
  callers := other.callers.trans one.callers
  rows := other.rows.trans one.rows
  inContract := other.inContract.trans one.inContract
  installed := other.installed.trans one.installed
  insideHandler := other.insideHandler.trans one.insideHandler
  olds := other.olds.trans one.olds
  entryStates := other.entryStates.trans one.entryStates

end Balanced

/-- However the action ends, the stacks are as they were. -/
def Steady (action : Eval World α) : Prop := Keeps Balanced action

namespace Steady

theorem pure (a : α) : Steady (Pure.pure a : Eval World α) := Keeps.pure Balanced.refl a

theorem signal (e : Signal) : Steady (Action.signal e : Eval World α) :=
  Keeps.signal Balanced.refl e

theorem look (f : Interp World → α) : Steady (Action.look f) := Keeps.look Balanced.refl f

theorem settle (ended : Except Signal α) : Steady (Action.settle ended : Eval World α) :=
  Keeps.settle Balanced.refl ended

theorem stuck : Steady (Action.stuck : Eval World α) := Keeps.stuck

theorem bind {first : Eval World α} {next : α → Eval World β} (steady : Steady first)
    (continues : ∀ a, Steady (next a)) : Steady (first >>= next) :=
  Keeps.bind (fun _ _ _ one other => one.trans other) steady continues

theorem attempt {action : Eval World α} (steady : Steady action) : Steady action.attempt :=
  Keeps.attempt steady

theorem within {enter leave : Interp World → Interp World} {action : Eval World α}
    (steady : Steady action)
    (restores : ∀ state later, Balanced (enter state) later → Balanced state (leave later)) :
    Steady (action.within enter leave) :=
  Keeps.within steady restores

end Steady

section Parts

variable (program : Program)

theorem here_steady : Steady (here program : Eval World Code) := by
  intro state ended later ran
  unfold here at ran
  split at ran
  · rcases Prod.mk.inj (Option.some.inj ran) with ⟨-, rfl⟩
    exact Balanced.refl state
  · exact absurd ran.symm (Option.some_ne_none _)

theorem fail_steady (diagnostic : Diagnostic) : Steady (fail diagnostic : Eval World α) :=
  Steady.signal _

theorem notRunnable_steady (span : Span) (what : String) :
    Steady (notRunnable program span what : Eval World α) :=
  (here_steady program).bind fun _ => fail_steady _

theorem overflow_steady (span : Span) : Steady (overflow program span : Eval World α) :=
  (here_steady program).bind fun _ => fail_steady _

theorem noCodeFor_steady (file : FileId) (span : Span) (definition : DefId) :
    Steady (noCodeFor program file span definition : Eval World α) :=
  (here_steady program).bind fun _ => fail_steady _

theorem insertInFrame_steady (definition : DefId) (value : Value) :
    Steady (insertInFrame definition value : Eval World Unit) := by
  intro state ended later ran
  unfold insertInFrame at ran
  split at ran
  · exact absurd ran.symm (Option.some_ne_none _)
  · next frame rest frames =>
      rcases Prod.mk.inj (Option.some.inj ran) with ⟨-, rfl⟩
      constructor
      · rfl
      · rw [frames]
        rfl
      · rw [frames]
        rfl
      all_goals rfl

theorem rebind_steady (ident : Ident) (value : Value) :
    Steady (rebind program ident value : Eval World Unit) := by
  apply (here_steady program).bind
  intro code
  split
  · exact insertInFrame_steady _ _
  · exact Steady.pure ()

theorem handlerInstalled_steady (index : Nat) :
    Steady (handlerInstalled index : Eval World Instance) := by
  intro state ended later ran
  unfold handlerInstalled at ran
  split at ran
  · rcases Prod.mk.inj (Option.some.inj ran) with ⟨-, rfl⟩
    exact Balanced.refl state
  · exact absurd ran.symm (Option.some_ne_none _)

theorem assignState_steady (index : Nat) (name : String) (value : Value) :
    Steady (assignState index name value : Eval World Unit) := by
  intro state ended later ran
  unfold assignState at ran
  split at ran
  · next found at_index =>
      rcases Prod.mk.inj (Option.some.inj ran) with ⟨-, rfl⟩
      refine ⟨rfl, rfl, rfl, rfl, rfl, ?_, rfl, rfl, rfl⟩
      show (state.handlers.set index _).map Instance.identity = _
      rw [List.map_set]
      apply List.ext_getElem?
      intro position
      rw [List.getElem?_set, List.getElem?_map, List.length_map]
      by_cases same : index = position
      · subst same
        rcases List.getElem?_eq_some_iff.1 at_index with ⟨below, rfl⟩
        rw [if_pos rfl, if_pos below, Interp.installed, List.getElem?_map, at_index]
        rfl
      · rw [if_neg same]
        exact (List.getElem?_map ..).symm
  · exact absurd ran.symm (Option.some_ne_none _)

theorem inAContract_steady {run : Eval World α} (steady : Steady run) :
    Steady (inAContract run) := by
  refine Steady.within steady ?_
  intro state later balanced
  refine { balanced with inContract := ?_ }
  show later.inContract - 1 = state.inContract
  rw [balanced.inContract]
  rfl

theorem inModule_run (index : Nat) (run : Eval World α) (interp : Interp World) :
    inModule index run interp =
      run.within (fun inside => { inside with current := index })
        (fun inside => { inside with current := interp.current }) interp := rfl

theorem inModule_steady (index : Nat) {run : Eval World α} (steady : Steady run) :
    Steady (inModule index run) := by
  intro state ended later ran
  rw [inModule_run] at ran
  rcases within_cases ran with ⟨between, done, rfl⟩
  exact { steady done with current := rfl }

theorem inFrame_steady (frame : Frame) {run : Eval World α} (steady : Steady run) :
    Steady (inFrame frame run) := by
  refine Steady.within steady ?_
  intro state later balanced
  refine { balanced with depth := ?_, callers := ?_ }
  · show later.frames.tail.length = state.frames.length
    rw [balanced.callers]
    rfl
  · show later.frames.tail.tail = state.frames.tail
    rw [balanced.callers]
    rfl

theorem inRow_steady (handler : Option Nat) (promise : Option Promise)
    {run : Eval World α} (steady : Steady run) : Steady (inRow handler promise run) := by
  refine Steady.within steady ?_
  intro state later balanced
  refine { balanced with rows := ?_ }
  show later.rows.tail = state.rows
  rw [balanced.rows]
  rfl

theorem inHandler_steady (index : Nat) {run : Eval World α} (steady : Steady run) :
    Steady (inHandler index run) := by
  refine Steady.within steady ?_
  intro state later balanced
  refine { balanced with insideHandler := ?_ }
  show later.insideHandler.tail = state.insideHandler
  rw [balanced.insideHandler]
  rfl

theorem holdToRow_steady (effect : DefId) (operation : String) (answeredBy : Option Nat)
    (span : Span) :
    Steady (holdToRow program effect operation answeredBy span : Eval World Unit) := by
  apply (here_steady program).bind
  intro code
  apply (Steady.look id).bind
  intro interp
  split
  · exact Steady.pure ()
  · split
    · exact Steady.pure ()
    · split
      · exact Steady.pure ()
      · exact fail_steady _

theorem tooDeep_steady (file : FileId) (span : Span) :
    Steady (tooDeep file span : Eval World Unit) := by
  apply (Steady.look _).bind
  intro depth
  split
  · exact Steady.pure ()
  · exact fail_steady _

theorem bindAll_steady (bindings : List (DefId × Value)) :
    Steady (bindAll bindings : Eval World Unit) := by
  induction bindings with
  | nil => exact Steady.pure ()
  | cons head rest ih => exact (insertInFrame_steady _ _).bind fun _ => ih

theorem bindPattern_steady (value : Value) (pattern : Pattern) :
    Steady (bindPattern program value pattern : Eval World Unit) :=
  (here_steady program).bind fun _ => bindAll_steady _

theorem field_held_steady (name : Ident) (fields : Fields) :
    Steady (field.held program name fields : Eval World Value) := by
  unfold field.held
  split
  · exact Steady.pure _
  · exact notRunnable_steady program _ _

theorem valueBinary_steady (op : BinaryOp) (left right : Value) (span : Span) :
    Steady (valueBinary program op left right span : Eval World Value) := by
  unfold valueBinary
  split
  · exact Steady.pure _
  · exact Steady.pure _
  · split
    · split
      · exact Steady.pure _
      · exact notRunnable_steady program _ _
    · split
      · exact Steady.pure _
      · exact overflow_steady program _
    · exact notRunnable_steady program _ _

theorem valueUnary_steady (op : UnaryOp) (value : Value) (span : Span) :
    Steady (valueUnary program op value span : Eval World Value) := by
  unfold valueUnary
  split
  · split
    · exact Steady.pure _
    · exact overflow_steady program _
  · exact Steady.pure _
  · exact notRunnable_steady program _ _

theorem callBuiltin_steady (name : String) (values : List Value) (callee : Span) :
    Steady (callBuiltin program name values callee : Eval World Value) := by
  unfold callBuiltin
  split
  · exact Steady.pure _
  · exact notRunnable_steady program _ _

theorem stateName_steady (definition : DefId) :
    Steady (stateName program definition : Eval World String) := by
  apply (here_steady program).bind
  intro code
  split
  · exact Steady.pure _
  · exact Steady.stuck

theorem readState_steady (definition : DefId) (span : Span) :
    Steady (readState program definition span : Eval World Value) := by
  apply (Steady.look _).bind
  intro inside
  split
  · exact notRunnable_steady program _ _
  · apply (stateName_steady program _).bind
    intro name
    apply (handlerInstalled_steady _).bind
    intro found
    split
    · exact Steady.pure _
    · exact notRunnable_steady program _ _

theorem read_steady (ident : Ident) : Steady (read program ident : Eval World Value) := by
  apply (here_steady program).bind
  intro code
  split
  · exact notRunnable_steady program _ _
  · split
    · exact readState_steady program _ _
    · split
      · exact Steady.pure _
      · apply (Steady.look id).bind
        intro interp
        split
        · exact Steady.pure _
        · split
          · exact Steady.pure _
          · exact notRunnable_steady program _ _

theorem evalClosure_steady (params : List Param) (body : Expr) (span : Span) :
    Steady (evalClosure params body span : Eval World Value) := by
  intro state ended later ran
  unfold evalClosure at ran
  split at ran
  · rcases Prod.mk.inj (Option.some.inj ran) with ⟨-, rfl⟩
    exact { Balanced.refl state with }
  · rcases Prod.mk.inj (Option.some.inj ran) with ⟨-, rfl⟩
    exact { Balanced.refl state with }

theorem evalOld_steady (span : Span) :
    Steady (evalOld program span : Eval World Value) := by
  apply (Steady.look _).bind
  intro olds
  split
  · exact Steady.pure _
  · exact notRunnable_steady program _ _

theorem evalUnchanged_steady (effect : EffectRef) (span : Span) :
    Steady (evalUnchanged program effect span : Eval World Value) := by
  apply (here_steady program).bind
  intro code
  apply (Steady.look id).bind
  intro interp
  split
  · exact notRunnable_steady program _ _
  · split
    · exact notRunnable_steady program _ _
    · exact (Steady.look _).bind fun _ => Steady.pure _

variable (outside : Outside World)

theorem field_steady (value : Value) (receiver : Span) (name : Ident) :
    Steady (field program outside value receiver name) := by
  unfold field
  split
  · split
    · exact Steady.pure _
    · split
      · exact Steady.pure _
      · split
        · split
          · exact Steady.pure _
          · exact (here_steady program).bind fun _ => fail_steady _
        · split
          · exact Steady.pure _
          · exact notRunnable_steady program _ _
  · exact field_held_steady program name _
  · exact field_held_steady program name _
  · exact notRunnable_steady program _ _

theorem performIo_steady (name : String) (args : List Arg) (span : Span) :
    Steady (performIo program outside name args span) := by
  apply (here_steady program).bind
  intro code state ended later ran
  rcases Prod.mk.inj (Option.some.inj ran) with ⟨-, rfl⟩
  exact { Balanced.refl state with }

theorem noHandler_steady (code : Code) (effect : DefId) (name : String) (span : Span) :
    Steady (noHandler program outside code effect name span) := by
  unfold noHandler
  dsimp only
  split
  · exact fail_steady _
  · exact fail_steady _

end Parts

/-! ## What calls the evaluator -/

section Evaluation

variable (program : Program) (outside : Outside World) {eval : Expr → Eval World Value}
  (steady : ∀ expr, Steady (eval expr))

include steady

theorem evalAll_steady (exprs : List Expr) : Steady (evalAll eval exprs) := by
  induction exprs with
  | nil => exact Steady.pure _
  | cons head rest ih =>
      exact (steady head).bind fun _ => ih.bind fun _ => Steady.pure _

theorem evalArgs_steady (args : List Expr) : Steady (evalArgs eval args) :=
  (evalAll_steady steady args).bind fun _ => Steady.pure _

theorem condition_steady (expr : Expr) : Steady (condition program eval expr) := by
  apply (steady expr).bind
  intro value
  split
  · exact Steady.pure _
  · exact notRunnable_steady program _ _

theorem assertionDetail_steady (expr : Expr) :
    Steady (assertionDetail outside eval expr) := by
  unfold assertionDetail
  split
  · split
    all_goals
      first
      | exact Steady.pure _
      | refine (steady _).attempt.bind fun left => (steady _).attempt.bind fun right => ?_
        split
        · exact Steady.pure _
        · exact Steady.pure _
  · exact Steady.pure _

theorem assertionFailed_steady (expr : Expr) (span : Span) :
    Steady (assertionFailed program outside eval expr span) :=
  (assertionDetail_steady outside steady expr).bind fun _ =>
    (here_steady program).bind fun _ => fail_steady _

theorem exec_steady (stmt : Stmt) : Steady (exec program outside eval stmt) := by
  cases stmt with
  | «let» pattern ty init span =>
      exact (steady init).bind fun _ => bindPattern_steady program _ _
  | assign target value span =>
      apply (steady value).bind
      intro value
      apply (here_steady program).bind
      intro code
      split
      · exact notRunnable_steady program _ _
      · apply (Steady.look _).bind
        intro inside
        split
        · exact notRunnable_steady program _ _
        · exact (stateName_steady program _).bind fun _ => assignState_steady _ _ _
  | «return» value span =>
      cases value with
      | none => exact Steady.signal _
      | some value => exact (steady value).bind fun _ => Steady.signal _
  | abandon span => exact (here_steady program).bind fun _ => fail_steady _
  | assert expr span =>
      apply (condition_steady program steady expr).bind
      intro held
      split
      · exact Steady.pure ()
      · exact assertionFailed_steady program outside steady expr span
  | refuses subject span =>
      apply (steady subject).attempt.bind
      intro ended
      split
      · split
        · exact Steady.pure ()
        · exact fail_steady _
      · exact Steady.signal _
      · exact (here_steady program).bind fun _ => fail_steady _
  | expr expr => exact (steady expr).bind fun _ => Steady.pure ()

theorem execAll_steady (stmts : List Stmt) :
    Steady (execAll program outside eval stmts) := by
  induction stmts with
  | nil => exact Steady.pure ()
  | cons head rest ih => exact (exec_steady program outside steady head).bind fun _ => ih

theorem evalBlock_steady (block : Block) :
    Steady (evalBlock program outside eval block) := by
  apply (execAll_steady program outside steady block.stmts).bind
  intro done
  split
  · exact steady _
  · exact Steady.pure _

theorem evalOlds_steady (targets : List (Span × Expr)) :
    Steady (evalOlds eval targets) := by
  induction targets with
  | nil => exact Steady.pure _
  | cons head rest ih =>
      exact (steady head.2).bind fun _ => ih.bind fun _ => Steady.pure _

theorem checkEnsures_steady (function : FnDecl) (value : Value) (callSpan : Span)
    (callFile : FileId) (ensures : List Ensures) :
    Steady (checkEnsures program eval function value callSpan callFile ensures) := by
  induction ensures with
  | nil => exact Steady.pure ()
  | cons obligation rest ih =>
      unfold checkEnsures
      split
      · exact ih
      · apply Steady.bind
        · apply (here_steady program).bind
          intro code
          split
          · exact insertInFrame_steady _ _
          · exact Steady.pure ()
        · intro bound
          apply (condition_steady program steady obligation.condition).bind
          intro held
          split
          · exact ih
          · exact (here_steady program).bind fun _ => fail_steady _

theorem checkRequires_steady (function : FnDecl) (callSpan : Span) (callFile : FileId)
    (requires : List Expr) :
    Steady (checkRequires program eval function callSpan callFile requires) := by
  induction requires with
  | nil => exact Steady.pure ()
  | cons requirement rest ih =>
      apply (inAContract_steady (condition_steady program steady requirement)).bind
      intro held
      split
      · exact ih
      · exact (here_steady program).bind fun _ => fail_steady _

end Evaluation

/-! ## Calls -/

theorem Balanced.forgotten {before after : Interp World} (balanced : Balanced before after)
    (captures : Bool) : Balanced (before.forgotten captures) (after.forgotten captures) := by
  cases captures with
  | false => exact balanced
  | true =>
      refine { balanced with olds := ?_, entryStates := ?_ }
      · exact congrArg List.tail balanced.olds
      · exact congrArg List.tail balanced.entryStates

section Calls

variable (program : Program) (outside : Outside World) {eval : Expr → Eval World Value}
  (steady : ∀ expr, Steady (eval expr))

include steady

/-- What a call captured is on top of what was captured before, unless capturing it was cut
short. -/
theorem capture_cases {function : FnDecl} {captures : Bool} {state later : Interp World}
    {ended : Except Signal Unit}
    (ran : capture eval function captures state = some (ended, later)) :
    (∃ signal, ended = .error signal ∧ Balanced state later) ∨
      (ended = .ok () ∧ Balanced state (later.forgotten captures)) := by
  unfold capture at ran
  cases captures with
  | false =>
      rcases Prod.mk.inj (Option.some.inj ran) with ⟨rfl, rfl⟩
      exact Or.inr ⟨rfl, Balanced.refl state⟩
  | true =>
      rw [if_pos rfl, inAContract] at ran
      rcases within_cases ran with ⟨between, done, rfl⟩
      have olds : Steady ((evalOlds eval (function.contract.ensures.flatMap fun obligation =>
          collectOlds obligation.condition)).within
          (fun interp => { interp with olds := [] :: interp.olds })
          (fun interp => { interp with olds := interp.olds.tail })) := by
        refine Steady.within (evalOlds_steady steady _) ?_
        intro state later balanced
        refine { balanced with olds := ?_ }
        show later.olds.tail = state.olds
        rw [balanced.olds]
        rfl
      rcases bind_cases done with ⟨values, captured, evaluated, changed⟩ | ⟨signal, failed, rfl⟩
      · have balanced := olds evaluated
        rcases Prod.mk.inj (Option.some.inj changed) with ⟨rfl, rfl⟩
        refine Or.inr ⟨rfl, { balanced with inContract := ?_ }⟩
        show captured.inContract - 1 = state.inContract
        rw [balanced.inContract]
        rfl
      · have balanced := olds failed
        refine Or.inl ⟨signal, rfl, { balanced with inContract := ?_ }⟩
        show between.inContract - 1 = state.inContract
        rw [balanced.inContract]
        rfl

theorem finish_leaves {function : FnDecl} {value : Value} {callSpan : Span}
    {callFile : FileId} {captures : Bool} {state later : Interp World}
    {ended : Except Signal Value}
    (ran : finish program eval function value callSpan callFile captures state =
      some (ended, later)) : Balanced (state.forgotten captures) later := by
  have checks := inAContract_steady (checkEnsures_steady program steady function value callSpan
    callFile function.contract.ensures)
  rcases attempt_bind_cases ran with ⟨obligations, checked, done, ran⟩
  have settled : Steady (do
      settle obligations
      pure value : Eval World Value) := (Steady.settle _).bind fun _ => Steady.pure _
  rw [forget, run_change_bind] at ran
  exact ((checks done).forgotten captures).trans (settled ran)

theorem callBody_steady (function : FnDecl) (callSpan : Span) (callFile : FileId)
    (captures : Bool) :
    Steady (callBody program outside eval function callSpan callFile captures) := by
  intro state ended later ran
  rcases bind_cases ran with ⟨_, checked, done, ran⟩ | ⟨signal, done, -⟩
  case inr =>
    exact checkRequires_steady program steady function callSpan callFile _ done
  have before := checkRequires_steady program steady function callSpan callFile _ done
  rcases bind_cases ran with ⟨_, entered, done, ran⟩ | ⟨signal, done, -⟩
  case inr =>
    rcases capture_cases steady done with ⟨-, -, balanced⟩ | ⟨impossible, -⟩
    · exact before.trans balanced
    · cases impossible
  rcases capture_cases steady done with ⟨signal, impossible, -⟩ | ⟨-, captured⟩
  · cases impossible
  rcases attempt_bind_cases ran with ⟨outcome, left, done, ran⟩
  have body := evalBlock_steady program outside steady function.body done
  have forgotten := (before.trans captured).trans (body.forgotten captures)
  cases outcome with
  | ok value => exact forgotten.trans (finish_leaves program steady ran)
  | error signal =>
      cases signal with
      | «return» value => exact forgotten.trans (finish_leaves program steady ran)
      | fail diagnostic =>
          rcases Prod.mk.inj (Option.some.inj ran) with ⟨-, rfl⟩
          exact forgotten

theorem call_steady (function : FnDecl) (args : List Arg) (callSpan : Span)
    (callFile : FileId) (handler : Option Nat) :
    Steady (call program outside eval function args callSpan callFile handler) := by
  have body : Steady (do
      tooDeep callFile callSpan
      callBody program outside eval function callSpan callFile
        (!function.contract.ensures.isEmpty) : Eval World Value) :=
    (tooDeep_steady callFile callSpan).bind fun _ =>
      callBody_steady program outside steady function callSpan callFile _
  apply (here_steady program).bind
  intro code
  apply inFrame_steady
  apply inRow_steady
  cases handler with
  | none => exact body
  | some index => exact inHandler_steady index body

theorem callClosure_steady (closure : Nat) (captured : Frame) (args : List Arg)
    (span : Span) : Steady (callClosure program eval closure captured args span) := by
  apply (here_steady program).bind
  intro caller
  apply (Steady.look _).bind
  intro closures
  split
  · exact notRunnable_steady program _ _
  · split
    · exact notRunnable_steady program _ _
    · split
      · exact Steady.stuck
      · apply inModule_steady
        apply inFrame_steady
        exact (tooDeep_steady _ _).bind fun _ => steady _

theorem callDeclared_steady (home : Nat) (definition : DefId) (args : List Arg)
    (span callee : Span) :
    Steady (callDeclared program outside eval home definition args span callee) := by
  apply (here_steady program).bind
  intro caller
  split
  · exact Steady.stuck
  · split
    · split
      · exact inModule_steady _ (call_steady program outside steady _ _ _ _ _)
      · exact notRunnable_steady program _ _
    · split
      · exact inModule_steady _ (call_steady program outside steady _ _ _ _ _)
      · exact inModule_steady _ (noCodeFor_steady program _ _ _)
    · exact notRunnable_steady program _ _

theorem callValue_steady (target : Value) (values : List Arg) (span callee : Span) :
    Steady (callValue program outside eval target values span callee) := by
  unfold callValue
  split
  · exact callClosure_steady program steady _ _ _ _
  · exact callDeclared_steady program outside steady _ _ _ _ _
  · exact notRunnable_steady program _ _

theorem callNamed_steady (path function : String) (args : List Arg) (span : Span) :
    Steady (callNamed program outside eval path function args span) := by
  apply (here_steady program).bind
  intro caller
  split
  · exact notRunnable_steady program _ _
  · split
    · exact notRunnable_steady program _ _
    · exact inModule_steady _ (call_steady program outside steady _ _ _ _ _)

theorem dispatch_steady (operation : DefId) (args : List Arg) (span : Span) :
    Steady (dispatch program outside eval operation args span) := by
  apply (here_steady program).bind
  intro code
  dsimp only
  split
  · exact notRunnable_steady program _ _
  · split
    · exact (holdToRow_steady program _ _ _ _).bind fun _ =>
        performIo_steady program outside _ _ _
    · apply (Steady.look _).bind
      intro handlers
      split
      · exact noHandler_steady program outside _ _ _ _
      · apply (handlerInstalled_steady _).bind
        intro found
        apply (holdToRow_steady program _ _ _ _).bind
        intro held
        split
        · exact Steady.stuck
        · split
          · exact notRunnable_steady program _ _
          · split
            · exact fail_steady _
            · exact inModule_steady _ (call_steady program outside steady _ _ _ _ _)

theorem callExpr_steady (callee : Expr) (args : List Expr) (span : Span) :
    Steady (callExpr program outside eval callee args span) := by
  apply (here_steady program).bind
  intro code
  split
  · exact (steady callee).bind fun _ => (evalArgs_steady steady args).bind fun _ =>
      callValue_steady program outside steady _ _ _ _
  · apply (evalArgs_steady steady args).bind
    intro values
    split
    · split
      · exact call_steady program outside steady _ _ _ _ _
      · exact notRunnable_steady program _ _
    · exact dispatch_steady program outside steady _ _ _
    · exact callBuiltin_steady program _ _ _
    · split
      · exact inModule_steady _ (call_steady program outside steady _ _ _ _ _)
      · exact noCodeFor_steady program _ _ _

theorem binary_steady (op : BinaryOp) (lhs rhs : Expr) (span : Span) :
    Steady (binary program outside eval op lhs rhs span) := by
  unfold binary
  split
  · apply (condition_steady program steady lhs).bind
    intro left
    split
    · exact (condition_steady program steady rhs).bind fun _ => Steady.pure _
    · exact Steady.pure _
  · apply (condition_steady program steady lhs).bind
    intro left
    split
    · exact Steady.pure _
    · exact (condition_steady program steady rhs).bind fun _ => Steady.pure _
  · apply (steady lhs).bind
    intro left
    apply (steady rhs).bind
    intro right
    apply (here_steady program).bind
    intro code
    split
    · apply (callNamed_steady program outside steady _ _ _ _).bind
      intro answer
      split
      · exact Steady.pure _
      · exact Steady.pure _
    · exact valueBinary_steady program _ _ _ _

theorem fieldValue_steady (name : Ident) (value : Option Expr) :
    Steady (fieldValue program eval name value) := by
  cases value with
  | none => exact read_steady program name
  | some value => exact steady value

theorem evalFields_steady (fields : List FieldInit) (values : Fields) :
    Steady (evalFields program eval fields values) := by
  induction fields generalizing values with
  | nil => exact Steady.pure _
  | cons head rest ih =>
      cases head with
      | mk name value span => exact (fieldValue_steady program steady name value).bind fun _ => ih _

theorem build_steady (path : Expr) (fields : List FieldInit) (span : Span) :
    Steady (build program eval path fields span) := by
  apply (here_steady program).bind
  intro code
  apply (evalFields_steady program steady fields []).bind
  intro values
  split
  · exact notRunnable_steady program _ _
  · split
    · exact Steady.pure _
    · split
      · exact Steady.pure _
      · split
        · exact Steady.pure _
        · exact notRunnable_steady program _ _

theorem evalPredicate_steady (definition : DefId) (predicate : Expr) (value : Value) :
    Steady (evalPredicate program eval definition predicate value) := by
  apply (here_steady program).bind
  intro code
  exact inFrame_steady _ (condition_steady program steady predicate)

theorem guard_steady (obligation : Guard) (value : Value) (span : Span) :
    Steady (guard program outside eval obligation value span) := by
  apply (here_steady program).bind
  intro code
  split
  · exact Steady.pure ()
  · split
    · exact Steady.pure ()
    · apply (evalPredicate_steady program steady _ _ _).bind
      intro passes
      split
      · exact Steady.pure ()
      · exact fail_steady _

end Calls

end Deed.Eval
