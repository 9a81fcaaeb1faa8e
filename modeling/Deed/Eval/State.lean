import Deed.Eval.Program
import Deed.Library.Action
import Deed.Library.Splitting

/-!
# The state of a run

The stacks that `crates/deed-interp/src/interp.rs` keeps while it runs, the signals that
cut an evaluation short, and the messages of those that more than one place sends.  The
innermost frame, row, `old` capture and handler operation stands first in its list; the
handlers stand in the order they were installed, because they are named by position.
Profiles and watchers are left out.
-/

namespace Deed.Eval

open Deed.Ast
open Deed.Library

/-! ## Failures -/

namespace Codes

def ASSERTION_FAILED : String := "DEED6001"
def PRECONDITION_FAILED : String := "DEED6002"
def POSTCONDITION_FAILED : String := "DEED6003"
def REFINEMENT_FAILED : String := "DEED6004"
def NO_HANDLER : String := "DEED6005"
def NOT_RUNNABLE : String := "DEED6006"
def ARITHMETIC : String := "DEED6007"
def TOO_DEEP : String := "DEED6009"
def ROW_NOT_KEPT : String := "DEED6010"
def ABANDONED : String := "DEED6011"

end Codes

/-- A span with something to say about it; no file means the diagnostic's own. -/
structure Label where
  span : Span
  file : Option FileId
  message : String
deriving DecidableEq, Repr

/-- One problem, at one place, with one cause. -/
structure Diagnostic where
  code : String
  message : String
  file : FileId
  primary : Label
  secondary : List Label
  notes : List String
deriving DecidableEq, Repr

namespace Diagnostic

def error (code : String) (file : FileId) (span : Span) (message : String) : Diagnostic :=
  ⟨code, message, file, ⟨span, none, message⟩, [], []⟩

def withPrimaryLabel (diagnostic : Diagnostic) (message : String) : Diagnostic :=
  { diagnostic with primary := { diagnostic.primary with message } }

def withSecondary (diagnostic : Diagnostic) (span : Span) (message : String) : Diagnostic :=
  { diagnostic with secondary := diagnostic.secondary ++ [⟨span, none, message⟩] }

def withSecondaryIn (diagnostic : Diagnostic) (file : FileId) (span : Span)
    (message : String) : Diagnostic :=
  { diagnostic with secondary := diagnostic.secondary ++ [⟨span, some file, message⟩] }

def withNote (diagnostic : Diagnostic) (note : String) : Diagnostic :=
  { diagnostic with notes := diagnostic.notes ++ [note] }

/-- Whether a runtime failure is a contract turning a value down. -/
def isContractFailure (diagnostic : Diagnostic) : Bool :=
  diagnostic.code == Codes.PRECONDITION_FAILED ||
    diagnostic.code == Codes.POSTCONDITION_FAILED ||
    diagnostic.code == Codes.REFINEMENT_FAILED

end Diagnostic

/-- Non-local control flow. -/
inductive Signal where
  | return (value : Value)
  | fail (diagnostic : Diagnostic)

/-- Whether a signal ends the program. -/
def Signal.isFail : Signal → Bool
  | .return _ => false
  | .fail _ => true

/-! ## The stacks -/

/-- A handler installed by a `with` block. -/
structure Instance where
  handler : DefId
  /-- Which module the handler's operations are written in. -/
  home : Nat
  effect : Origin
  state : Fields

/-- What one active call promised, so that what it does can be held to it. -/
structure RowFrame where
  /-- How many handlers were installed when the call started. -/
  handled : Nat
  /-- The instance a handler operation belongs to. -/
  handler : Option Nat
  promise : Option Promise

/-- A closure expression, kept where a value can point at it. -/
structure Closure where
  home : Nat
  span : Span
  params : List Param
  body : Expr

structure Interp (World : Type) where
  /-- Which module the running frame belongs to. -/
  current : Nat
  frames : List Frame
  rows : List RowFrame
  /-- How deep inside a contract clause the running code is. -/
  inContract : Nat
  handlers : List Instance
  /-- Which handler instance the running operation belongs to, if any. -/
  insideHandler : List Nat
  /-- Values of `old(...)` captured on entry to the running call. -/
  olds : List (List (Span × Value))
  /-- Handler state captured on entry, for `unchanged(...)`. -/
  entryStates : List (List (Origin × Fields))
  closures : List Closure
  /-- How many closure values were made. -/
  addresses : Nat
  /-- What the built-in operations read and change. -/
  world : World

/-- What the outside hands a run, and the two ways the standard library writes text. -/
structure Outside (World : Type) where
  /-- The directory that `sys.files` hands out. -/
  root : Option Rt.Path
  /-- The hosts that `sys.net` reaches. -/
  reach : Rt.Reach
  /-- A built-in operation, by its name. -/
  perform : String → List (Value × Span) → FileId → Span → World →
    Except Diagnostic Value × World
  /-- `{:?}` of a string. -/
  quoted : String → String
  /-- `to_lowercase` of a string. -/
  lowercased : String → String

abbrev Eval (World : Type) (α : Type) : Type := Action (Interp World) Signal α

variable {World : Type} {α : Type} (program : Program)

open Action

/-- The module the running frame belongs to. -/
def here : Eval World Code := fun interp =>
  match program.modules[interp.current]? with
  | some code => some (.ok code, interp)
  | none => none

def fail (diagnostic : Diagnostic) : Eval World α := signal (.fail diagnostic)

/-- Something the running program did that `deed check` refuses. -/
def notRunnable (span : Span) (what : String) : Eval World α := do
  let code ← here program
  fail ((Diagnostic.error Codes.NOT_RUNNABLE code.file span
      ("the interpreter cannot run " ++ what)).withPrimaryLabel "not runnable" |>.withNote
    "nothing that passes `deed check` reaches this, so either this file was not checked or the check has a hole")

def overflow (span : Span) : Eval World α := do
  let code ← here program
  fail ((Diagnostic.error Codes.ARITHMETIC code.file span
      "this arithmetic has no answer").withPrimaryLabel
    "overflow, or division by zero" |>.withNote
    "`Int` is a 64 bit signed integer and does not wrap")

/-- A call whose body is in a module the interpreter was never given. -/
def noCodeFor (file : FileId) (span : Span) (definition : DefId) : Eval World α := do
  let code ← here program
  fail ((Diagnostic.error Codes.NOT_RUNNABLE file span
      ("`" ++ code.nameOf definition ++
        "` was imported from a module whose code was not handed to the interpreter")).withPrimaryLabel
    "no body to run" |>.withNote
    "every module a program calls into has to be in the `Program`, and this one was resolved without being added")

/-! ## Frames, handlers and contracts -/

/-- Writes a name in the running frame. -/
def insertInFrame (definition : DefId) (value : Value) : Eval World Unit := fun interp =>
  match interp.frames with
  | [] => none
  | frame :: rest =>
      some (.ok (), { interp with frames := Assoc.insert frame definition value :: rest })

/-- Binds a name in the running frame, replacing whatever was there. -/
def rebind (ident : Ident) (value : Value) : Eval World Unit := do
  let code ← here program
  match code.defOf ident with
  | some definition => insertInFrame definition value
  | none => pure ()

/-- The handler installed at a position. -/
def handlerInstalled (index : Nat) : Eval World Instance := fun interp =>
  match interp.handlers[index]? with
  | some found => some (.ok found, interp)
  | none => none

/-- Writes a state field of the handler installed at a position. -/
def assignState (index : Nat) (name : String) (value : Value) : Eval World Unit :=
  fun interp =>
    match interp.handlers[index]? with
    | some found =>
        some (.ok (), { interp with
          handlers := interp.handlers.set index
            { found with state := Assoc.insert found.state name value } })
    | none => none

/-- The state of the handler currently installed for an effect. -/
def stateOf (effect : Origin) : Eval World (Option Fields) :=
  look fun interp =>
    (interp.handlers.reverse.find? fun found => found.effect == effect).map Instance.state

/-- Runs something that is part of a contract rather than part of the program. -/
def inAContract (run : Eval World α) : Eval World α :=
  run.within (fun interp => { interp with inContract := interp.inContract + 1 })
    (fun interp => { interp with inContract := interp.inContract - 1 })

/-- Runs something in another module. -/
def inModule (index : Nat) (run : Eval World α) : Eval World α := do
  let caller ← look Interp.current
  run.within (fun interp => { interp with current := index })
    (fun interp => { interp with current := caller })

/-- Runs something in a frame of its own. -/
def inFrame (frame : Frame) (run : Eval World α) : Eval World α :=
  run.within (fun interp => { interp with frames := frame :: interp.frames })
    (fun interp => { interp with frames := interp.frames.tail })

/-- Runs something that is held to a row. -/
def inRow (handler : Option Nat) (promise : Option Promise) (run : Eval World α) :
    Eval World α :=
  run.within
    (fun interp => { interp with
      rows := ⟨interp.handlers.length, handler, promise⟩ :: interp.rows })
    (fun interp => { interp with rows := interp.rows.tail })

/-- Runs something that belongs to a handler instance. -/
def inHandler (index : Nat) (run : Eval World α) : Eval World α :=
  run.within (fun interp => { interp with insideHandler := index :: interp.insideHandler })
    (fun interp => { interp with insideHandler := interp.insideHandler.tail })

/-! ## Rows -/

/-- Which active call did not declare what just happened.  The frames are asked from the
innermost out; `barrier` is how far out the asking is held off, and no barrier is
`usize::MAX`. -/
def checkRow (effect : Origin) (operation : String) (answeredBy : Option Nat) :
    Option Nat → List RowFrame → Option String
  | _, [] => none
  | barrier, frame :: rest =>
      if answeredBy.any fun index => frame.handled ≤ index then none
      else
        match (if barrier.all fun limit => frame.handled ≤ limit then frame.promise
            else none).filter fun promise => !promise.covers effect operation with
        | some promise => some promise.name
        | none =>
            match frame.handler with
            | some index =>
                checkRow effect operation answeredBy
                  (some ((barrier.getD index).min index)) rest
            | none => checkRow effect operation answeredBy barrier rest

/-- Reports the first active call that did not declare what just happened. -/
def holdToRow (effect : DefId) (operation : String) (answeredBy : Option Nat) (span : Span) :
    Eval World Unit := do
  let code ← here program
  let interp ← look id
  if 0 < interp.inContract then pure ()
  else
    match program.effectId code effect with
    | none => pure ()
    | some declared =>
        match checkRow declared operation answeredBy none interp.rows with
        | none => pure ()
        | some name =>
            fail ((Diagnostic.error Codes.ROW_NOT_KEPT code.file span
                ("this performs `" ++ declared.2 ++ "." ++ operation ++ "`, and `" ++ name ++
                  "` is running and did not declare it")).withPrimaryLabel
              "performed here" |>.withNote
              "the file was accepted, so this is a hole in the effect checker rather than a mistake in the program; please report it")

def MAX_DEPTH : Nat := 128

/-- Refuses to go any deeper, rather than letting the host stack decide. -/
def tooDeep (file : FileId) (span : Span) : Eval World Unit := do
  let depth ← look fun interp : Interp World => interp.frames.length
  if depth ≤ MAX_DEPTH then pure ()
  else
    fail ((Diagnostic.error Codes.TOO_DEEP file span
        ("this call went more than " ++ toString MAX_DEPTH ++ " deep")).withPrimaryLabel
      "too deep" |>.withNote
      "a function that can reach itself has to declare `Diverge`, and declaring it does not make it stop")

end Deed.Eval
