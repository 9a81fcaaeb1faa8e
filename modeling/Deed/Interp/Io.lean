import Deed.Rt.Platform

/-!
# Built-in operations of the interpreter

`perform_io` of `crates/deed-interp/src/interp.rs`: every `Io` operation takes the
capability it acts on as its first argument.  Spans are left out, and of the values
those that no operation takes or gives.
-/

namespace Deed

open Deed.Rt

/-- The interpreter's state, as far as the operations reach it. -/
structure Interp (World : Type) where
  world : World
  /-- The directory that `sys.files` hands out. -/
  root : Option Path
  /-- The hosts that `sys.net` reaches. -/
  reach : Reach
  arguments : List Text
  environment : List (Text × Text)
  input : List Text
  readLines : Nat
  ticks : Int
  output : List Text

namespace Interp

/-- Authority to do something to something. -/
inductive Capability where
  | system
  | console
  | clock
  | dir (root : Path)
  | net (reach : Reach)
deriving DecidableEq

/-- What to call a capability in a message. -/
def Capability.name : Capability → Text
  | .system => "System".toList
  | .console => "Console".toList
  | .clock => "Clock".toList
  | .dir _ => "Dir".toList
  | .net _ => "Net".toList

/-- Runtime values, as far as an operation takes or gives them. -/
inductive Value where
  | unit
  | int (value : Int)
  | str (text : Text)
  | bool (value : Bool)
  | list (elements : List Value)
  | result (ok : Bool) (value : Value)
  | capability (held : Capability)

namespace Value

/-- `ok(value)` -/
def ok (value : Value) : Value := .result true value

/-- `err(value)` -/
def err (value : Value) : Value := .result false value

/-- What kind of thing this is, for a diagnostic. -/
def describe : Value → Text
  | .unit => "()".toList
  | .int _ => "an Int".toList
  | .str _ => "a String".toList
  | .bool _ => "a Bool".toList
  | .list _ => "a List".toList
  | .result _ _ => "a Result".toList
  | .capability _ => "a capability".toList

/-- Induction on what a `Result` carries; the elements of a list are not looked at. -/
@[elab_as_elim]
theorem carried {motive : Value → Prop} (unit : motive .unit)
    (int : ∀ value, motive (.int value)) (str : ∀ text, motive (.str text))
    (bool : ∀ value, motive (.bool value)) (list : ∀ elements, motive (.list elements))
    (result : ∀ ok value, motive value → motive (.result ok value))
    (capability : ∀ held, motive (.capability held)) : ∀ value, motive value
  | .unit => unit
  | .int value => int value
  | .str text => str text
  | .bool value => bool value
  | .list elements => list elements
  | .result ok value => result ok value (carried unit int str bool list result capability value)
  | .capability held => capability held

end Value

/-- The operations of `Io`. -/
inductive Operation where
  | write
  | line
  | now
  | epoch
  | args
  | env
  | list
  | open
  | read
  | save
  | remove
  | make
  | reach
  | fetch
  | send
deriving DecidableEq, Repr

/-- The name that an operation goes by. -/
def Operation.name : Operation → Text
  | .write => "write".toList
  | .line => "line".toList
  | .now => "now".toList
  | .epoch => "epoch".toList
  | .args => "args".toList
  | .env => "env".toList
  | .list => "list".toList
  | .open => "open".toList
  | .read => "read".toList
  | .save => "save".toList
  | .remove => "remove".toList
  | .make => "make".toList
  | .reach => "reach".toList
  | .fetch => "fetch".toList
  | .send => "send".toList

/-- How an operation ends without a value. -/
inductive Failure where
  /-- A diagnostic, by its message. -/
  | failed (message : Text)
  /-- An addition left the range of its type. -/
  | overflow
deriving DecidableEq

/-- What the interpreter says of something that no checked program does. -/
def notRunnable (what : Text) : Failure :=
  .failed ("the interpreter cannot run ".toList ++ what)

variable {World : Type}

/-- A capability taken out of `System`, by the name of the field. -/
def narrowed (interp : Interp World) (name : Text) : Except Failure Capability :=
  if name = "console".toList then .ok .console
  else if name = "clock".toList then .ok .clock
  else if name = "files".toList then
    match interp.root with
    | some root => .ok (.dir root)
    | none => .error (.failed "this program was not given a directory".toList)
  else if name = "net".toList then .ok (.net interp.reach)
  else .error (notRunnable ("\x60System.".toList ++ name ++ "\x60, which does not exist".toList))

/-- The string argument of an operation: a filename, a host, a URL or a body. -/
def ioName : Option Value → Except Failure Text
  | some (.str text) => .ok text
  | some other =>
      .error (notRunnable ("an \x60Io\x60 operation given ".toList ++ other.describe ++
        " where it wants text".toList))
  | none => .error (notRunnable "an \x60Io\x60 operation with an argument missing".toList)

/-- The contents that a file is saved with. -/
def savedText : Option Value → Except Failure Text
  | some (.str text) => .ok text
  | some other => .error (notRunnable ("a file's contents that are ".toList ++ other.describe))
  | none => .error (notRunnable "a save with nothing to save".toList)

/-- A `Result` that some other part of the runtime decided. -/
def asked : Except Text Text → Value
  | .ok text => .ok (.str text)
  | .error why => .err (.str why)

/-- An error of the machine's, under the name that was asked about. -/
def complained (name error : Text) : Value :=
  .err (.str ("\x60".toList ++ name ++ "\x60: ".toList ++ error))

variable (platform : Platform World)

/-- `Io.open`: the directory at a name. -/
def performOpen (world : World) (root : Path) (name : Text) : Value :=
  match Sandbox.resolve (platform.canonicalize world) root name with
  | .ok path =>
      if platform.isDir world path then .ok (.capability (.dir path))
      else .err (.str ("\x60".toList ++ name ++ "\x60 is not a directory".toList))
  | .error refused => .err (.str (refused.message name))

/-- `Io.read`: the text of the file at a name. -/
def performRead (world : World) (root : Path) (name : Text) : Value :=
  match Sandbox.resolve (platform.canonicalize world) root name with
  | .ok path =>
      match platform.readToString world path with
      | .ok text => .ok (.str text)
      | .error error => complained name error
  | .error refused => .err (.str (refused.message name))

/-- `Io.save`: text written to the file at a name. -/
def performSave (world : World) (root : Path) (name contents : Text) : Value × World :=
  match Sandbox.resolveNew (platform.canonicalize world) root name with
  | .ok path =>
      match platform.write world path contents with
      | (.ok (), later) => (.ok .unit, later)
      | (.error error, later) => (complained name error, later)
  | .error refused => (.err (.str (refused.message name)), world)

/-- `Io.remove`: the file at a name, destroyed. -/
def performRemove (world : World) (root : Path) (name : Text) : Value × World :=
  match Sandbox.resolve (platform.canonicalize world) root name with
  | .ok path =>
      if platform.isDir world path then
        (.err (.str ("\x60".toList ++ name ++ "\x60 is a directory".toList)), world)
      else
        match platform.removeFile world path with
        | (.ok (), later) => (.ok .unit, later)
        | (.error error, later) => (complained name error, later)
  | .error refused => (.err (.str (refused.message name)), world)

/-- `Io.make`: a directory that was not there. -/
def performMake (world : World) (root : Path) (name : Text) : Value × World :=
  match Sandbox.resolveNew (platform.canonicalize world) root name with
  | .ok path =>
      if platform.pathExists world path then
        (.err (.str ("\x60".toList ++ name ++ "\x60 is already there".toList)), world)
      else
        match platform.createDir world path with
        | (.ok (), later) =>
            match Sandbox.root (platform.canonicalize later) path with
            | .ok made => (.ok (.capability (.dir made)), later)
            | .error refused => (.err (.str (refused.message name)), later)
        | (.error error, later) => (complained name error, later)
  | .error refused => (.err (.str (refused.message name)), world)

variable (display : Value → Text)

/-- Performs a built-in operation.  `display` is how a value is printed. -/
def performIo (operation : Operation) (args : List Value) (interp : Interp World) :
    Except Failure (Value × Interp World) :=
  match args.head? with
  | some (.capability capability) =>
      match operation, capability with
      | .write, .console =>
          let line :=
            match (args[1]? : Option Value) with
            | some (.str text) => text
            | some other => display other
            | none => []
          .ok (.unit, { interp with output := interp.output ++ [line] })
      | .line, .console =>
          match interp.input[interp.readLines]? with
          | some line => .ok (.ok (.str line), { interp with readLines := interp.readLines + 1 })
          | none => .ok (.err (.str "there is no more input".toList), interp)
      | .now, .clock =>
          if interp.ticks + 1 < 2 ^ 63 then
            .ok (.int (interp.ticks + 1), { interp with ticks := interp.ticks + 1 })
          else .error .overflow
      | .epoch, .clock =>
          let (now, later) := platform.sinceEpoch interp.world
          .ok (.int now.toInt, { interp with world := later })
      | .args, .system => .ok (.list (interp.arguments.map .str), interp)
      | .env, .system => do
          let wanted ← ioName args[1]?
          match interp.environment.find? fun entry => entry.1 = wanted with
          | some (_, value) => .ok (.ok (.str value), interp)
          | none =>
              .ok (.err (.str ("\x60".toList ++ wanted ++
                "\x60 was not granted to this program".toList)), interp)
      | .list, .dir root =>
          match platform.readDir interp.world root with
          | .ok entries => .ok (.ok (.list ((Platform.fileNames entries).map .str)), interp)
          | .error error => .ok (.err (.str error), interp)
      | .open, .dir root => do
          let name ← ioName args[1]?
          .ok (performOpen platform interp.world root name, interp)
      | .read, .dir root => do
          let name ← ioName args[1]?
          .ok (performRead platform interp.world root name, interp)
      | .save, .dir root => do
          let name ← ioName args[1]?
          let contents ← savedText args[2]?
          let (value, later) := performSave platform interp.world root name contents
          .ok (value, { interp with world := later })
      | .remove, .dir root => do
          let name ← ioName args[1]?
          let (value, later) := performRemove platform interp.world root name
          .ok (value, { interp with world := later })
      | .make, .dir root => do
          let name ← ioName args[1]?
          let (value, later) := performMake platform interp.world root name
          .ok (value, { interp with world := later })
      | .reach, .net reach => do
          let host ← ioName args[1]?
          match reach.narrow host with
          | .ok narrowed => .ok (.ok (.capability (.net narrowed)), interp)
          | .error refused => .ok (.err (.str (refused.message host)), interp)
      | .fetch, .net reach => do
          let url ← ioName args[1]?
          let (answer, later) :=
            platform.overTheNetwork interp.world reach url "GET".toList none
          .ok (asked answer, { interp with world := later })
      | .send, .net reach => do
          let url ← ioName args[1]?
          let body ← ioName args[2]?
          let (answer, later) :=
            platform.overTheNetwork interp.world reach url "POST".toList (some body)
          .ok (asked answer, { interp with world := later })
      | operation, held =>
          .error (.failed ("\x60Io.".toList ++ operation.name ++
            "\x60 cannot be performed with a \x60".toList ++ held.name ++ "\x60".toList))
  | _ => .error (notRunnable "an \x60Io\x60 operation with no capability".toList)

end Interp

end Deed
