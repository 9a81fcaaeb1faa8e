import Deed.Eval.Builtins

/-!
# The interpreter

`Interp::eval` of `crates/deed-interp/src/interp.rs` and everything it goes through.
Every function below takes the evaluator it calls itself with; `evaluate` ties the knot,
with a limit on how many expressions stand inside one another.
-/

namespace Deed.Eval

open Deed.Ast
open Deed.Library
open Action

variable {World : Type} {α : Type} (program : Program) (outside : Outside World)
  (eval : Expr → Eval World Value)

/-! ## Reading -/

/-- A value, with the place it was written. -/
abbrev Arg := Value × Span

/-- Evaluates expressions from the left. -/
def evalAll : List Expr → Eval World (List Value)
  | [] => pure []
  | expr :: rest => do
      let value ← eval expr
      let values ← evalAll rest
      pure (value :: values)

/-- Evaluates arguments from the left. -/
def evalArgs (args : List Expr) : Eval World (List Arg) := do
  let values ← evalAll eval args
  pure (values.zip (args.map Expr.span))

def condition (expr : Expr) : Eval World Bool := do
  let value ← eval expr
  match value.asBool with
  | some held => pure held
  | none => notRunnable program expr.span "a condition that is not a Bool"

/-- The field name a piece of handler state goes by. -/
def stateName (definition : DefId) : Eval World String := do
  let code ← here program
  match code.stateNames definition with
  | some name => pure name
  | none => stuck

/-- Reads handler state, out of the handler whose operation is running. -/
def readState (definition : DefId) (span : Span) : Eval World Value := do
  let inside ← look Interp.insideHandler
  match inside with
  | [] => notRunnable program span "handler state from outside a handler"
  | index :: _ => do
      let name ← stateName program definition
      let found ← handlerInstalled index
      match Assoc.find? found.state name with
      | some value => pure value
      | none => notRunnable program span "handler state that was never initialised"

/-- Reads a name. -/
def read (ident : Ident) : Eval World Value := do
  let code ← here program
  match code.defOf ident with
  | none => notRunnable program ident.span "an unresolved name"
  | some definition =>
      if code.kindOf definition = .state then readState program definition ident.span
      else
        match program.variantId code definition with
        | some (origin, variant) => pure (.variant origin variant [])
        | none => do
            let interp ← look id
            match interp.frames.head?.bind fun frame => Assoc.find? frame definition with
            | some value => pure value
            | none =>
                if code.kindOf definition = .function ∨ code.kindOf definition = .import then
                  pure (.function interp.current definition)
                else
                  notRunnable program ident.span
                    ("`" ++ ident.name ++ "`, which has no value here")

/-! ## Blocks -/

/-- Both sides of a comparison that is false, evaluated once more. -/
def assertionDetail : Expr → Eval World (Option String)
  | .binary op lhs rhs _ =>
      match op with
      | .eq | .ne | .lt | .le | .gt | .ge => do
          let left ← (eval lhs).attempt
          let right ← (eval rhs).attempt
          match left, right with
          | .ok left, .ok right =>
              pure (some ("left is " ++ left.display outside.quoted ++ ", right is " ++
                right.display outside.quoted ++ ", and `" ++ op.asStr ++ "` is false"))
          | _, _ => pure none
      | _ => pure none
  | _ => pure none

/-- A failed assertion, with both sides shown when the condition compares two things. -/
def assertionFailed (expr : Expr) (span : Span) : Eval World Unit := do
  let detail ← assertionDetail outside eval expr
  let code ← here program
  let diagnostic := ((Diagnostic.error Codes.ASSERTION_FAILED code.file expr.span
    "this assertion is not true").withPrimaryLabel "evaluated to false").withSecondary span
      "in this assert"
  fail ((detail.map diagnostic.withNote).getD diagnostic)

def exec : Stmt → Eval World Unit
  | .let pattern _ init _ => do
      let value ← eval init
      bindPattern program value pattern
  | .assign target value _ => do
      let value ← eval value
      let code ← here program
      match code.defOf target with
      | none => notRunnable program target.span "this assignment"
      | some definition => do
          let inside ← look Interp.insideHandler
          match inside with
          | [] => notRunnable program target.span "assignment from outside a handler"
          | index :: _ => do
              let name ← stateName program definition
              assignState index name value
  | .return value _ =>
      match value with
      | some value => do
          let value ← eval value
          signal (.return value)
      | none => signal (.return .unit)
  | .abandon span => do
      let code ← here program
      fail ((Diagnostic.error Codes.ABANDONED code.file span
        "this computation was abandoned by its handler").withPrimaryLabel "abandoned here")
  | .assert expr span => do
      let held ← condition program eval expr
      if held then pure () else assertionFailed program outside eval expr span
  -- The one place anything is caught, and it catches contract failures.
  | .refuses subject span => do
      let ended ← (eval subject).attempt
      match ended with
      | .error (.fail diagnostic) =>
          if diagnostic.isContractFailure then pure () else fail diagnostic
      | .error other => signal other
      | .ok value => do
          let code ← here program
          fail ((Diagnostic.error Codes.ASSERTION_FAILED code.file span
              ("this was supposed to break a contract, and it produced " ++
                value.display outside.quoted)).withPrimaryLabel
            "nothing refused it" |>.withNote
            "`assert refuses` passes when a `where` clause, an `ensures` clause or a refinement turns the value down, and nothing else counts")
  | .expr expr => do
      let _ ← eval expr
      pure ()

def execAll : List Stmt → Eval World Unit
  | [] => pure ()
  | stmt :: rest => do
      exec program outside eval stmt
      execAll rest

def evalBlock (block : Block) : Eval World Value := do
  execAll program outside eval block.stmts
  match block.tail with
  | some tail => eval tail
  | none => pure .unit

/-! ## Calls -/

/-- Evaluates every `old(...)`, from the left. -/
def evalOlds : List (Span × Expr) → Eval World (List (Span × Value))
  | [] => pure []
  | (span, inner) :: rest => do
      let value ← eval inner
      let values ← evalOlds rest
      pure ((span, value) :: values)

/-- Evaluates every `old(...)` and snapshots handler state, before the body gets a chance
to change anything. -/
def captureEntryState (ensures : List Ensures) : Eval World Unit := do
  let targets := ensures.flatMap fun obligation => collectOlds obligation.condition
  let values ← (evalOlds eval targets).within
    (fun interp => { interp with olds := [] :: interp.olds })
    (fun interp => { interp with olds := interp.olds.tail })
  change fun interp => { interp with
    -- What was captured last for a span, or installed last for an effect, is found first.
    olds := values.reverse :: interp.olds
    entryStates :=
      (interp.handlers.reverse.map fun found => (found.effect, found.state)) ::
        interp.entryStates }

/-- Which outcome a function produced. -/
def outcomeOf : Value → Outcome
  | .result false _ => .err
  | _ => .ok

/-- What `result` stands for: the success value or the error value, or the whole of what
is no `Result`. -/
def resultOf : Value → Value
  | .result _ value => value
  | other => other

/-- Binds `result` in a clause that mentions it. -/
def bindResult (condition : Expr) (value : Value) : Eval World Unit := do
  let code ← here program
  match resultDef condition code.resolutions with
  | some definition => insertInFrame definition (resultOf value)
  | none => pure ()

def checkEnsures (function : FnDecl) (value : Value) (callSpan : Span) (callFile : FileId) :
    List Ensures → Eval World Unit
  | [] => pure ()
  | obligation :: rest =>
      if obligation.outcome ≠ outcomeOf value then
        checkEnsures function value callSpan callFile rest
      else do
        bindResult program obligation.condition value
        let held ← condition program eval obligation.condition
        if held then checkEnsures function value callSpan callFile rest
        else do
          let code ← here program
          fail ((Diagnostic.error Codes.POSTCONDITION_FAILED code.file obligation.span
              ("`" ++ function.sig.name.name ++ "` did not keep this promise")).withPrimaryLabel
            "postcondition not met" |>.withNote
            "a postcondition failure is a bug in the function, not in the caller"
            |>.withSecondaryIn callFile callSpan "called from here")

def checkRequires (function : FnDecl) (callSpan : Span) (callFile : FileId) :
    List Expr → Eval World Unit
  | [] => pure ()
  | requirement :: rest => do
      let held ← inAContract (condition program eval requirement)
      if held then checkRequires function callSpan callFile rest
      else do
        let code ← here program
        fail ((Diagnostic.error Codes.PRECONDITION_FAILED callFile callSpan
            ("this call does not satisfy what `" ++ function.sig.name.name ++
              "` requires")).withPrimaryLabel
          "precondition not met" |>.withNote "a precondition failure is a bug in the caller"
          |>.withSecondaryIn code.file requirement.span "the clause that failed")

/-- Captures what a call's `ensures` clauses can read, when it has any. -/
def capture (function : FnDecl) (captures : Bool) : Eval World Unit :=
  if captures then inAContract (captureEntryState eval function.contract.ensures)
  else pure ()

/-- What is left when what entering a call captured is forgotten. -/
def Interp.forgotten (captures : Bool) (interp : Interp World) : Interp World :=
  if captures then
    { interp with olds := interp.olds.tail, entryStates := interp.entryStates.tail }
  else interp

/-- Forgets what entering a call captured. -/
def forget (captures : Bool) : Eval World Unit := change (Interp.forgotten captures)

/-- The end of a call whose body produced a value. -/
def finish (function : FnDecl) (value : Value) (callSpan : Span) (callFile : FileId)
    (captures : Bool) : Eval World Value := do
  let obligations ← (inAContract (checkEnsures program eval function value callSpan callFile
    function.contract.ensures)).attempt
  forget captures
  settle obligations
  pure value

/-- The part of a call that runs inside the new frame. -/
def callBody (function : FnDecl) (callSpan : Span) (callFile : FileId) (captures : Bool) :
    Eval World Value := do
  checkRequires program eval function callSpan callFile function.contract.requires
  capture eval function captures
  let outcome ← (evalBlock program outside eval function.body).attempt
  match outcome with
  | .error (.fail diagnostic) => do
      forget captures
      fail diagnostic
  | .error (.return value) => finish program eval function value callSpan callFile captures
  | .ok value => finish program eval function value callSpan callFile captures

/-- What each parameter binds to what it was given. -/
def bound (params : List (Option DefId)) (args : List Arg) : Frame :=
  (params.zip args).foldl (fun frame entry =>
    match entry.1 with
    | some definition => Assoc.insert frame definition entry.2.1
    | none => frame) []

/-- Calls a function of the running module. -/
def call (function : FnDecl) (args : List Arg) (callSpan : Span) (callFile : FileId)
    (handler : Option Nat) : Eval World Value := do
  let code ← here program
  let params := function.sig.params.map fun param => code.defOf param.name
  let body : Eval World Value := do
    tooDeep callFile callSpan
    callBody program outside eval function callSpan callFile
      (!function.contract.ensures.isEmpty)
  inFrame (bound params args) <| inRow handler (program.promiseOf code function) <|
    match handler with
    | some index => inHandler index body
    | none => body

/-- Calls a closure, in the frame it was written in. -/
def callClosure (closure : Nat) (captured : Frame) (args : List Arg) (span : Span) :
    Eval World Value := do
  let caller ← here program
  let closures ← look Interp.closures
  match closures[closure]? with
  | none => notRunnable program span "a closure the interpreter lost track of"
  | some found =>
      if args.length ≠ found.params.length then
        notRunnable program span "a closure called with the wrong arity"
      else
        match program.modules[found.home]? with
        | none => stuck
        | some there =>
            let frame := (found.params.zip args).foldl (fun frame entry =>
              match there.defOf entry.1.name with
              | some definition => Assoc.insert frame definition entry.2.1
              | none => frame) captured
            inModule found.home <| inFrame frame <| do
              tooDeep caller.file span
              eval found.body

/-- Calls a function that was handed over as a value. -/
def callDeclared (home : Nat) (definition : DefId) (args : List Arg) (span callee : Span) :
    Eval World Value := do
  let caller ← here program
  match program.modules[home]? with
  | none => stuck
  | some there =>
      match there.kindOf definition with
      | .function =>
          match there.function definition with
          | some function =>
              inModule home (call program outside eval function args span caller.file none)
          | none => notRunnable program callee "this call"
      | .import =>
          match program.importedFunction there definition with
          | some (index, function) =>
              inModule index (call program outside eval function args span caller.file none)
          | none => inModule home (noCodeFor program caller.file callee definition)
      | _ => notRunnable program callee "this call"

/-- Calls whatever the callee produced, when it was not the name of anything callable. -/
def callValue (target : Value) (values : List Arg) (span callee : Span) :
    Eval World Value :=
  match target with
  | .closure _ code captured => callClosure program eval code captured values span
  | .function home definition =>
      callDeclared program outside eval home definition values span callee
  | _ => notRunnable program callee "this call"

/-- Calls a function by the module that declares it and its name there. -/
def callNamed (path function : String) (args : List Arg) (span : Span) :
    Eval World Value := do
  let caller ← here program
  match program.byPath path with
  | none => notRunnable program span ("an operator declared in `" ++ path ++ "`")
  | some index =>
      match (program.modules[index]?).bind fun there => there.functionNamed function with
      | none => notRunnable program span ("`" ++ function ++ "` in `" ++ path ++ "`")
      | some declaration =>
          inModule index (call program outside eval declaration args span caller.file none)

/-- The position of the last handler installed for an effect. -/
def answering (effect : Origin) (handlers : List Instance) : Option Nat :=
  (handlers.zipIdx.reverse.find? fun entry => entry.1.effect == effect).map Prod.snd

/-- An operation that nothing installed answers. -/
def noHandler (code : Code) (effect : DefId) (name : String) (span : Span) :
    Eval World Value :=
  let effectName := code.nameOf effect
  if (program.effectId code effect).any fun declared =>
      program.entry.any fun entry => entry.covers declared name then
    fail ((Diagnostic.error Codes.NO_HANDLER code.file span
        ("`" ++ effectName ++ "." ++ name ++
          "` is in `main`'s row, so the host answers it")).withPrimaryLabel
      "nothing here answers this" |>.withNote
      ("an effect that reaches `main` is the program's boundary, and `deed build` turns it into `import deed:" ++
        outside.lowercased effectName ++ "." ++ name ++ "` in the component's world")
      |>.withNote
      "`deed run` is not a host and installs nothing, so either give the component to one, or handle the effect inside the program with a `with` block")
  else
    fail ((Diagnostic.error Codes.NO_HANDLER code.file span
        ("no handler is installed for `" ++ effectName ++ "`")).withPrimaryLabel
      "nothing can perform this" |>.withNote
      "wrap the call in a `with` block naming a handler for the effect")

def dispatch (operation : DefId) (args : List Arg) (span : Span) : Eval World Value := do
  let code ← here program
  let name := code.nameOf operation
  match (code.resolutions.definition operation).parent with
  | none => notRunnable program span "this effect operation"
  | some effect =>
      if code.resolutions.builtin "Io" = some effect then do
        holdToRow program effect name none span
        performIo program outside name args span
      else do
        let handlers ← look Interp.handlers
        match (program.effectId code effect).bind fun declared =>
            answering declared handlers with
        | none => noHandler program outside code effect name span
        | some index => do
            let found ← handlerInstalled index
            holdToRow program effect name (some index) span
            match program.modules[found.home]? with
            | none => stuck
            | some there =>
                match there.handlerDecl found.handler with
                | none => notRunnable program span "this handler"
                | some declaration =>
                    match declaration.operations.find? fun candidate =>
                        candidate.sig.name.name == name with
                    | none =>
                        fail ((Diagnostic.error Codes.NO_HANDLER code.file span
                            ("the handler `" ++ declaration.name.name ++
                              "` does not implement `" ++ name ++ "`")).withPrimaryLabel
                          "not implemented"
                          |>.withSecondary declaration.name.span "this handler"
                          |>.withNote
                          "a handler has to implement every operation its effect declares, and this file was accepted, so this is a hole in the type checker rather than a mistake in the program; please report it")
                    | some declared =>
                        inModule found.home
                          (call program outside eval declared args span code.file (some index))

/-- What a callee refers to, if it is a name. -/
def calleeDef (code : Code) : Expr → Option DefId
  | .ident ident => code.defOf ident
  | .field _ name _ => code.defOf name
  | _ => none

/-- Whether a definition is called by its name. -/
def calledByName (kind : DefKind) : Bool :=
  match kind with
  | .function | .effectOp | .builtin | .import => true
  | _ => false

def callExpr (callee : Expr) (args : List Expr) (span : Span) : Eval World Value := do
  let code ← here program
  match (calleeDef code callee).filter fun definition =>
      calledByName (code.kindOf definition) with
  | none => do
      let target ← eval callee
      let values ← evalArgs eval args
      callValue program outside eval target values span callee.span
  | some definition => do
      let values ← evalArgs eval args
      match code.kindOf definition with
      | .function =>
          match code.function definition with
          | some function => call program outside eval function values span code.file none
          | none => notRunnable program callee.span "this call"
      | .effectOp => dispatch program outside eval definition values span
      | .builtin => callBuiltin program (code.nameOf definition) (values.map Prod.fst) callee.span
      | _ =>
          match program.importedFunction code definition with
          | some (index, function) =>
              inModule index (call program outside eval function values span code.file none)
          | none => noCodeFor program code.file callee.span definition

/-! ## Operators and construction -/

def binary (op : BinaryOp) (lhs rhs : Expr) (span : Span) : Eval World Value :=
  match op with
  | .and => do
      let left ← condition program eval lhs
      if left then do
        let right ← condition program eval rhs
        pure (.bool right)
      else pure (.bool false)
  | .or => do
      let left ← condition program eval lhs
      if left then pure (.bool true)
      else do
        let right ← condition program eval rhs
        pure (.bool right)
  | op => do
      let left ← eval lhs
      let right ← eval rhs
      let code ← here program
      match code.operators span with
      | some (path, function) => do
          let args := if op.fromLessThan.1 then [(right, rhs.span), (left, lhs.span)]
            else [(left, lhs.span), (right, rhs.span)]
          let answer ← callNamed program outside eval path function args span
          match op.fromLessThan.2, answer with
          | true, .bool held => pure (.bool (!held))
          | _, answer => pure answer
      | none => valueBinary program op left right span

/-- A field of a literal; the shorthand reads the name. -/
def fieldValue (name : Ident) : Option Expr → Eval World Value
  | some value => eval value
  | none => read program name

/-- The fields of a literal, from the left. -/
def evalFields : List FieldInit → Fields → Eval World Fields
  | [], values => pure values
  | .mk name value _ :: rest, values => do
      let held ← fieldValue program eval name value
      evalFields rest (Assoc.insert values name.name held)

def build (path : Expr) (fields : List FieldInit) (span : Span) : Eval World Value := do
  let code ← here program
  let values ← evalFields program eval fields []
  match calleeDef code path with
  | none => notRunnable program span "this literal"
  | some definition =>
      if code.kindOf definition = .record then pure (.record values)
      else
        match program.variantId code definition with
        | some (origin, name) => pure (.variant origin name values)
        | none =>
            if code.importedRecord definition then pure (.record values)
            else notRunnable program span "this literal"

/-! ## Refinements -/

/-- Evaluates a refinement predicate with `value` standing for the thing checked. -/
def evalPredicate (definition : DefId) (predicate : Expr) (value : Value) :
    Eval World Bool := do
  let code ← here program
  let frame : Frame :=
    match code.subjects definition with
    | some subject => [(subject, value)]
    | none => []
  inFrame frame (condition program eval predicate)

/-- The `Guarded` tier, actually guarding something. -/
def guard (guard : Guard) (value : Value) (span : Span) : Eval World Unit := do
  let code ← here program
  match code.refinements guard.refinement with
  | none => pure ()
  | some predicate =>
      match (if guard.insideOk then value.okPayload else some value) with
      | none => pure ()
      | some value => do
          let passes ← evalPredicate program eval guard.refinement predicate value
          if passes then pure ()
          else
            fail ((Diagnostic.error Codes.REFINEMENT_FAILED code.file span
                ("this value does not satisfy `" ++ code.nameOf guard.refinement ++
                  "`")).withPrimaryLabel
              (value.display outside.quoted ++ " violates the refinement")
              |>.withSecondary predicate.span "the predicate it has to satisfy"
              |>.withNote "the compiler could not prove this statically, so it is checked here")

/-! ## Handlers -/

/-- A handler named in a `with`, and what its state starts from. -/
def handlerParts : Expr → Expr × List FieldInit
  | .structLit path fields _ => (path, fields)
  | other => (other, [])

def handlerDef (code : Code) : Expr → Option DefId
  | .ident ident => code.defOf ident
  | _ => none

/-- The first state field of a handler that nobody gave a value to. -/
def missingField (declaration : HandlerDecl) (state : Fields) : Option FieldDecl :=
  declaration.state.find? fun field => (Assoc.find? state field.name.name).isNone

/-- The effect a handler implements, which is named where the handler is written. -/
def implemented (home : Nat) (declaration : HandlerDecl) : Option Origin := do
  let there ← program.modules[home]?
  let effect ← there.defOf declaration.effect
  program.effectId there effect

/-- Installs a handler whose declaration was found. -/
def installFound (code : Code) (expr : Expr) (home : Nat) (handler : DefId)
    (declaration : HandlerDecl) : Eval World Unit := do
  let state ← evalFields program eval (handlerParts expr).2 []
  match missingField declaration state with
  | some field =>
      fail ((Diagnostic.error Codes.NOT_RUNNABLE code.file expr.span
          ("`" ++ declaration.name.name ++ "` needs an initial value for `" ++
            field.name.name ++ "`")).withPrimaryLabel
        "incomplete handler" |>.withSecondary field.span "declared here")
  | none =>
      match implemented program home declaration with
      | none => notRunnable program expr.span "this handler's effect"
      | some effect =>
          change fun interp => { interp with
            handlers := interp.handlers ++ [⟨handler, home, effect, state⟩] }

/-- Installs one handler of a `with`. -/
def install (expr : Expr) : Eval World Unit := do
  let code ← here program
  let current ← look Interp.current
  match (handlerDef code (handlerParts expr).1).bind (program.handlerAt current code) with
  | none => notRunnable program expr.span "this handler"
  | some (home, handler, declaration) =>
      installFound program eval code expr home handler declaration

/-- Installs the handlers of a `with`, until one cannot be. -/
def installAll : List Expr → Eval World Unit
  | [] => pure ()
  | handler :: rest => do
      install program eval handler
      installAll rest

/-- Runs one `finally` block, in the handler's module and with its state accessible. -/
def runFinally (index home : Nat) (block : Block) : Eval World (Except Signal Value) :=
  (inModule home <| inFrame [] <| inRow (some index) none <| inHandler index <|
    evalBlock program outside eval block).attempt

/-- Whether an outcome is a hard failure. -/
def failed : Except Signal Value → Bool
  | .error signal => signal.isFail
  | .ok _ => false

/-- What a `finally` block that ended makes of the outcome so far. -/
def replaced (bodyFailed : Bool) (outcome ended : Except Signal Value) :
    Except Signal Value :=
  match bodyFailed, ended with
  | false, .error signal => .error signal
  | _, _ => outcome

/-- Runs the `finally` block of each handler at the positions given. -/
def finallyBlocks (bodyFailed : Bool) :
    List Nat → Except Signal Value → Eval World (Except Signal Value)
  | [], outcome => pure outcome
  | index :: rest, outcome => do
      let found ← handlerInstalled index
      match program.modules[found.home]? with
      | none => stuck
      | some there =>
          match (there.handlerDecl found.handler).bind HandlerDecl.finallyBlock with
          | none => finallyBlocks bodyFailed rest outcome
          | some block => do
              let ended ← runFinally program outside eval index found.home block
              finallyBlocks bodyFailed rest (replaced bodyFailed outcome ended)

/-- Runs the `finally` block of each handler installed at or after `base`, the most
recently installed first. -/
def runFinallyBlocks (base : Nat) (incoming : Except Signal Value) :
    Eval World (Except Signal Value) := do
  let top ← look fun interp : Interp World => interp.handlers.length
  finallyBlocks program outside eval (failed incoming)
    (List.range' base (top - base)).reverse incoming

/-- Evaluates a `with`. -/
def evalWith (handlers : List Expr) (body : Block) : Eval World Value := do
  let base ← look fun interp : Interp World => interp.handlers.length
  let result ← (do
    installAll program eval handlers
    evalBlock program outside eval body).attempt
  let result ← runFinallyBlocks program outside eval base result
  change fun interp => { interp with handlers := interp.handlers.take base }
  settle result

/-! ## Expressions -/

/-- Binds a name again, where there is one. -/
def rebindMaybe (ident : Option Ident) (value : Value) : Eval World Unit :=
  match ident with
  | some ident => rebind program ident value
  | none => pure ()

/-- Whether the next turn of a `for` happens: what its condition says, asked with the
accumulator in place. -/
def goesOn (accumulator : Option Ident) (keep : Option Expr) (carried : Value) :
    Eval World Bool :=
  match keep with
  | none => pure true
  | some keep => do
      rebindMaybe program accumulator carried
      let held ← eval keep
      match held with
      | .bool held => pure held
      | other =>
          notRunnable program keep.span ("a `for` condition that is " ++ other.describe)

/-- The turns of a `for` over the elements that are left. -/
def turns (binder : Ident) (index accumulator : Option Ident) (keep : Option Expr)
    (body : Block) : Nat → List Value → Value → Eval World Value
  | _, [], carried => pure carried
  | position, element :: rest, carried => do
      let goes ← goesOn program eval accumulator keep carried
      if goes then do
        rebind program binder element
        rebindMaybe program index (.int (Int64.ofNat position))
        rebindMaybe program accumulator carried
        let carried ← evalBlock program outside eval body
        turns binder index accumulator keep body (position + 1) rest carried
      else pure carried

/-- What a `for` starts carrying. -/
def carriedFirst : Option (Ident × Expr) → Eval World Value
  | some (_, init) => eval init
  | none => pure .unit

/-- The first arm that accepts a value. -/
def evalArms (code : Code) (value : Value) (span : Span) : List MatchArm → Eval World Value
  | [] =>
      fail ((Diagnostic.error Codes.NOT_RUNNABLE code.file span
          ("no arm of this match accepted " ++ value.display outside.quoted)).withPrimaryLabel
        "nothing matched" |>.withNote
        "the type checker believes this match is exhaustive, so this is a bug in the interpreter or in the exhaustiveness check")
  | .mk pattern body _ :: rest =>
      if matchesPattern program code value pattern then do
        bindPattern program value pattern
        eval body
      else evalArms code value span rest

/-- Makes a closure of what is visible right now. -/
def evalClosure (params : List Param) (body : Expr) (span : Span) : Eval World Value :=
  fun interp =>
    let captured := interp.frames.head?.getD []
    match interp.closures.findIdx? fun found =>
        found.home == interp.current && found.span == span with
    | some index =>
        some (.ok (.closure interp.addresses index captured),
          { interp with addresses := interp.addresses + 1 })
    | none =>
        some (.ok (.closure interp.addresses interp.closures.length captured),
          { interp with
            closures := interp.closures ++ [⟨interp.current, span, params, body⟩]
            addresses := interp.addresses + 1 })

def evalOld (span : Span) : Eval World Value := do
  let olds ← look Interp.olds
  match olds.head?.bind fun captured => captured.find? fun entry => entry.1 == span with
  | some (_, value) => pure value
  | none => notRunnable program span "`old` outside a contract"

def evalUnchanged (effect : EffectRef) (span : Span) : Eval World Value := do
  let code ← here program
  let interp ← look id
  if interp.inContract = 0 then
    notRunnable program span "`unchanged` outside a contract"
  else
    match (code.defOf effect.effect).bind (program.effectId code) with
    | none => notRunnable program span "this effect reference"
    | some declared => do
        let before := (interp.entryStates.head?.bind fun states =>
          states.find? fun entry => entry.1 == declared).map Prod.snd
        let now ← stateOf declared
        pure (.bool (Value.sameState before now))

def evalInner : Expr → Eval World Value
  | .int value _ => pure (.int value)
  | .str value _ => pure (.str value)
  | .bool value _ => pure (.bool value)
  | .unit _ => pure .unit
  | .ident ident => read program ident
  | .field receiver name span => do
      let code ← here program
      match (code.defOf name).bind (program.variantId code) with
      | some (origin, variant) => pure (.variant origin variant [])
      | none =>
          match (Expr.field receiver name span).intLimit with
          | some limit => pure (.int limit)
          | none => do
              let value ← eval receiver
              field program outside value receiver.span name
  | .call callee args span => callExpr program outside eval callee args span
  | .list elements _ => do
      let values ← evalAll eval elements
      pure (.list values)
  | .structLit path fields span => build program eval path fields span
  | .unary op operand span => do
      let value ← eval operand
      valueUnary program op value span
  | .binary op lhs rhs span => binary program outside eval op lhs rhs span
  | .try operand span => do
      let value ← eval operand
      match value with
      | .result true value => pure value
      -- The rest of the body does not run.
      | .result false value => signal (.return (.result false value))
      | other =>
          notRunnable program span ("`?` on " ++ other.describe ++ ", which is not a Result")
  | .if test thenBranch elseBranch _ => do
      let taken ← condition program eval test
      if taken then evalBlock program outside eval thenBranch
      else
        match elseBranch with
        | some elseBranch => eval elseBranch
        | none => pure .unit
  | .match scrutinee arms span => do
      let value ← eval scrutinee
      let code ← here program
      evalArms program outside eval code value span arms
  | .for binder index iterable accumulator keep body _ => do
      let walked ← eval iterable
      match walked with
      | .list elements => do
          let carried ← carriedFirst eval accumulator
          turns program outside eval binder index (accumulator.map Prod.fst) keep body 0
            elements carried
      | other => notRunnable program iterable.span ("a `for` over " ++ other.describe)
  | .block block => evalBlock program outside eval block
  | .closure params body span => evalClosure params body span
  | .old _ span => evalOld program span
  | .unchanged effect span => evalUnchanged program effect span
  | .with handlers body _ => evalWith program outside eval handlers body
  | .error span => notRunnable program span "code that did not compile"

/-- Checks what the checker recorded about an expression, if it recorded anything. -/
def makeGood (expr : Expr) (value : Value) : Eval World Unit := do
  let code ← here program
  match code.guards expr.span with
  | some obligation => guard program outside eval obligation value expr.span
  | none => pure ()

/-- Evaluates an expression, then makes good on whatever the checker said about it. -/
def evalGuarded (expr : Expr) : Eval World Value := do
  let value ← evalInner program outside eval expr
  makeGood program outside eval expr value
  pure value

/-- The evaluator, for expressions that stand at most `limit` deep inside one another as
they are reached. -/
def evaluate : Nat → Expr → Eval World Value
  | 0, _ => stuck
  | limit + 1, expr => evalGuarded program outside (evaluate limit) expr

end Deed.Eval
