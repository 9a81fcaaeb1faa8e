import Deed.Host.Call
import Deed.Interp.Io

/-!
# What a host grants a compiled program

`crates/deed-codegen/src/grant.rs`: the table of capabilities that a host keeps, the
handles that a program names them by, and the answer to each import that a set of
grants offers.
-/

namespace Deed.Host

open Deed.Wasm Deed.Rt
open Deed.Interp (Operation)

/-- Something the host handed out, by what it is. -/
inductive Held where
  | system
  | console
  | clock
  | dir (path : Path)
  | net (reach : Reach)
deriving DecidableEq

/-- What to call this in a refusal. -/
def Held.name : Held → Text
  | .system => "System".toList
  | .console => "Console".toList
  | .clock => "Clock".toList
  | .dir _ => "Dir".toList
  | .net _ => "Net".toList

/-- Whether this is the kind of thing that one is, ignoring which one. -/
def Held.is : Held → Held → Bool
  | .system, .system => true
  | .console, .console => true
  | .clock, .clock => true
  | .dir _, .dir _ => true
  | .net _, .net _ => true
  | _, _ => false

/-- What an embedder decided a compiled program may reach. -/
structure Grants where
  console : Bool
  input : Option (List Text)
  clock : Bool
  files : Option Path
  network : Option Reach
  arguments : Option (List Text)
  environment : Option (List (Text × Text))

/-- A host that grants nothing. -/
def Grants.none : Grants where
  console := false
  input := Option.none
  clock := false
  files := Option.none
  network := Option.none
  arguments := Option.none
  environment := Option.none

/-- Grants a directory, and everything under it.  A path that does not resolve grants
nothing. -/
def Grants.withFiles (canonicalize : Path → Option Path) (grants : Grants) (root : Path) :
    Grants :=
  { grants with files := (Sandbox.root canonicalize root).toOption }

/-- The table, and what a call reads and changes besides it: the module's memory, the
machine, and the lines that the console was given. -/
structure State (World : Type) where
  held : List Held
  output : List Text
  input : List Text
  readLines : Nat
  ticks : Int
  world : World
  memory : Memory

/-- The capabilities that are in the table from the start. -/
def Grants.held (grants : Grants) : List Held :=
  [.system] ++ (if grants.console then [.console] else []) ++
    (if grants.clock then [.clock] else []) ++ (grants.files.map Held.dir).toList ++
    (grants.network.map Held.net).toList

variable {World : Type}

/-- The host that answers for these grants. -/
def Grants.intoHost (grants : Grants) (world : World) (memory : Memory) : State World where
  held := grants.held
  output := []
  input := grants.input.getD []
  readLines := 0
  ticks := 0
  world := world
  memory := memory

/-- The fields of `System`. -/
inductive Field where
  | console
  | clock
  | files
  | net
deriving DecidableEq, Repr

/-- The name that a field goes by. -/
def Field.name : Field → Text
  | .console => "console".toList
  | .clock => "clock".toList
  | .files => "files".toList
  | .net => "net".toList

/-- An import: a narrowing of `System`, or an operation of `Io`. -/
inductive Imported where
  | sys (field : Field)
  | io (operation : Operation)
deriving DecidableEq, Repr

/-- Where an import is asked for, and by what name. -/
def Imported.path : Imported → Text × Text
  | .sys field => ("deed:sys".toList, field.name)
  | .io operation => ("deed:io".toList, operation.name)

/-- Whether a set of grants answers for an import. -/
def Grants.offers (grants : Grants) : Imported → Bool
  | .sys .console => grants.console
  | .sys .clock => grants.clock
  | .sys .files => grants.files.isSome
  | .sys .net => grants.network.isSome
  | .io .write => grants.console
  | .io .line => grants.input.isSome
  | .io .now | .io .epoch => grants.clock
  | .io .args => grants.arguments.isSome
  | .io .env => grants.environment.isSome
  | .io .list | .io .open | .io .read | .io .save | .io .remove | .io .make =>
      grants.files.isSome
  | .io .reach | .io .fetch | .io .send => grants.network.isSome

/-! ## The table -/

/-- A handle as the module gets it. -/
def handleValue (number : Nat) : Value := .i64 (Int64.ofNat number)

/-- The handle for a capability, when it is in the table: one past its index. -/
def handle (held : List Held) (what : Held) : Option Value :=
  (held.findIdx? (· = what)).map fun index => handleValue (index + 1)

/-- What a handle the module passed back stands for, if anything. -/
def standsFor (held : List Held) (value : Option Value) : Option Held :=
  value.bind fun value =>
    let index := (asI64 value).toInt - 1
    if 0 ≤ index then held[index.toNat]? else none

/-- What this host says when it was handed something it did not grant. -/
def refusal (want : Held) (operation : Text) : Ended :=
  .refused ("\x60".toList ++ operation ++ "\x60 was handed something that is not a \x60".toList ++
    want.name ++ "\x60 this host granted".toList)

/-- What a host says when the module has nowhere to put the answer. -/
def noRoom : Ended := .refused "the module has no memory left for the answer".toList

/-! ## One call -/

/-- A computation of the host, which may stop, and leaves the host as it is then. -/
abbrev HostM (World α : Type) : Type := ExceptT Ended (StateM (State World)) α

/-- The handle for a capability, which is added to the table the first time. -/
def handOut (what : Held) : HostM World Value := do
  let host ← get
  match handle host.held what with
  | some already => pure already
  | none =>
      set { host with held := host.held ++ [what] }
      pure (handleValue (host.held.length + 1))

/-- Checks that the capability argument is the one an operation acts on. -/
def require (arguments : List Value) (what : Held) (operation : Text) : HostM World Unit := do
  let host ← get
  if (standsFor host.held arguments[0]?).any (·.is what) then pure ()
  else throw (refusal what operation)

/-- The directory that the capability argument stands for. -/
def dir (arguments : List Value) (operation : Text) : HostM World Path := do
  let host ← get
  match standsFor host.held arguments[0]? with
  | some (.dir path) => pure path
  | _ => throw (refusal (.dir []) operation)

/-- The hosts that the capability argument reaches. -/
def net (arguments : List Value) (operation : Text) : HostM World Reach := do
  let host ← get
  match standsFor host.held arguments[0]? with
  | some (.net reach) => pure reach
  | _ => throw (refusal (.net Reach.none) operation)

/-- The string argument at a position. -/
def textOf (arguments : List Value) (position : Nat) (operation : Text) : HostM World Text := do
  let host ← get
  match text host.memory arguments[position]? with
  | .error ended => throw ended
  | .ok (some text) => pure text
  | .ok none =>
      throw (.refused ("\x60".toList ++ operation ++
        "\x60 was handed something that is not a string".toList))

/-- Something written into the module's memory, or the refusal when there is no room. -/
def written (write : Memory → Except Ended (Option (Value × Memory))) : HostM World Value := do
  let host ← get
  match write host.memory with
  | .error ended => throw ended
  | .ok none => throw noRoom
  | .ok (some (value, memory)) =>
      set { host with memory := memory }
      pure value

/-- A string written into the module's memory. -/
def string (text : Text) : HostM World Value := written fun memory => writeText memory text

/-- A `Result` written into the module's memory. -/
def answer (ok : Bool) (value : Value) : HostM World (Option Value) := do
  let tag := if ok then Runtime.OK else Runtime.ERR
  let result ← written fun memory => writeAggregate memory (some tag) [value]
  pure (some result)

/-- An `err` carrying a sentence. -/
def failed (why : Text) : HostM World (Option Value) := do
  let text ← string why
  answer false text

/-- A `Result` of a string that some other part of the runtime already decided. -/
def asked : Except Text Text → HostM World (Option Value)
  | .ok text => do
      let text ← string text
      answer true text
  | .error why => failed why

/-- What a `Result` carries in its `ok` when there is nothing to carry. -/
def nothing : Value := .i64 0

/-- Strings written one after the other, and then the list of them. -/
def strings (texts : List Text) : HostM World Value := do
  let items ← texts.mapM string
  written fun memory => writeList memory items

/-- A field of `System`, taken out. -/
def narrow (what : Held) (operation : Text) (arguments : List Value) :
    HostM World (Option Value) := do
  require arguments .system operation
  let host ← get
  pure (handle host.held what)

def write (arguments : List Value) : HostM World (Option Value) := do
  require arguments .console "Io.write".toList
  let line ← textOf arguments 1 "Io.write".toList
  modify fun host => { host with output := host.output ++ [line] }
  pure none

def line (arguments : List Value) : HostM World (Option Value) := do
  require arguments .console "Io.line".toList
  let host ← get
  match host.input[host.readLines]? with
  | some text =>
      set { host with readLines := host.readLines + 1 }
      let written ← string text
      answer true written
  | none => failed "there is no more input".toList

def args (granted : List Text) (arguments : List Value) : HostM World (Option Value) := do
  require arguments .system "Io.args".toList
  let items ← strings granted
  pure (some items)

def env (granted : List (Text × Text)) (arguments : List Value) :
    HostM World (Option Value) := do
  require arguments .system "Io.env".toList
  let wanted ← textOf arguments 1 "Io.env".toList
  match granted.find? fun entry => entry.1 = wanted with
  | some (_, value) => do
      let written ← string value
      answer true written
  | none =>
      failed ("\x60".toList ++ wanted ++ "\x60 was not granted to this program".toList)

def now (arguments : List Value) : HostM World (Option Value) := do
  require arguments .clock "Io.now".toList
  let host ← get
  if host.ticks + 1 < 2 ^ 63 then
    set { host with ticks := host.ticks + 1 }
    pure (some (.i64 (Int64.ofInt (host.ticks + 1))))
  else throw .panicked

variable (platform : Platform World)

def epoch (arguments : List Value) : HostM World (Option Value) := do
  require arguments .clock "Io.epoch".toList
  let host ← get
  let millis := platform.sinceEpoch host.world
  set { host with world := millis.2 }
  pure (some (.i64 millis.1))

def read (arguments : List Value) : HostM World (Option Value) := do
  let root ← dir arguments "Io.read".toList
  let name ← textOf arguments 1 "Io.read".toList
  let host ← get
  match Sandbox.resolve (platform.canonicalize host.world) root name with
  | .ok path =>
      match platform.readToString host.world path with
      | .ok contents => do
          let text ← string contents
          answer true text
      | .error error => failed ("\x60".toList ++ name ++ "\x60: ".toList ++ error)
  | .error refused => failed (refused.message name)

def save (arguments : List Value) : HostM World (Option Value) := do
  let root ← dir arguments "Io.save".toList
  let name ← textOf arguments 1 "Io.save".toList
  let contents ← textOf arguments 2 "Io.save".toList
  let host ← get
  match Sandbox.resolveNew (platform.canonicalize host.world) root name with
  | .ok path =>
      let outcome := platform.write host.world path contents
      set { host with world := outcome.2 }
      match outcome.1 with
      | .ok () => answer true nothing
      | .error error => failed ("\x60".toList ++ name ++ "\x60: ".toList ++ error)
  | .error refused => failed (refused.message name)

def remove (arguments : List Value) : HostM World (Option Value) := do
  let root ← dir arguments "Io.remove".toList
  let name ← textOf arguments 1 "Io.remove".toList
  let host ← get
  match Sandbox.resolve (platform.canonicalize host.world) root name with
  | .ok path =>
      if platform.isDir host.world path then
        failed ("\x60".toList ++ name ++ "\x60 is a directory".toList)
      else
        let outcome := platform.removeFile host.world path
        set { host with world := outcome.2 }
        match outcome.1 with
        | .ok () => answer true nothing
        | .error error => failed ("\x60".toList ++ name ++ "\x60: ".toList ++ error)
  | .error refused => failed (refused.message name)

def list (arguments : List Value) : HostM World (Option Value) := do
  let root ← dir arguments "Io.list".toList
  let host ← get
  match platform.readDir host.world root with
  | .ok entries => do
      let items ← strings (Platform.fileNames entries)
      answer true items
  | .error error => failed error

def openDir (arguments : List Value) : HostM World (Option Value) := do
  let root ← dir arguments "Io.open".toList
  let name ← textOf arguments 1 "Io.open".toList
  let host ← get
  match Sandbox.resolve (platform.canonicalize host.world) root name with
  | .ok path =>
      if platform.isDir host.world path then
        let handle ← handOut (.dir path)
        answer true handle
      else failed ("\x60".toList ++ name ++ "\x60 is not a directory".toList)
  | .error refused => failed (refused.message name)

def make (arguments : List Value) : HostM World (Option Value) := do
  let root ← dir arguments "Io.make".toList
  let name ← textOf arguments 1 "Io.make".toList
  let host ← get
  match Sandbox.resolveNew (platform.canonicalize host.world) root name with
  | .ok path =>
      if platform.pathExists host.world path then
        failed ("\x60".toList ++ name ++ "\x60 is already there".toList)
      else
        let outcome := platform.createDir host.world path
        set { host with world := outcome.2 }
        match outcome.1 with
        | .ok () =>
            match Sandbox.root (platform.canonicalize outcome.2) path with
            | .ok made => do
                let handle ← handOut (.dir made)
                answer true handle
            | .error refused => failed (refused.message name)
        | .error error => failed ("\x60".toList ++ name ++ "\x60: ".toList ++ error)
  | .error refused => failed (refused.message name)

def reach (arguments : List Value) : HostM World (Option Value) := do
  let reach ← net arguments "Io.reach".toList
  let host ← textOf arguments 1 "Io.reach".toList
  match reach.narrow host with
  | .ok narrowed => do
      let handle ← handOut (.net narrowed)
      answer true handle
  | .error refused => failed (refused.message host)

def fetch (arguments : List Value) : HostM World (Option Value) := do
  let reach ← net arguments "Io.fetch".toList
  let url ← textOf arguments 1 "Io.fetch".toList
  let host ← get
  let answer := platform.overTheNetwork host.world reach url "GET".toList none
  set { host with world := answer.2 }
  asked answer.1

def send (arguments : List Value) : HostM World (Option Value) := do
  let reach ← net arguments "Io.send".toList
  let url ← textOf arguments 1 "Io.send".toList
  let body ← textOf arguments 2 "Io.send".toList
  let host ← get
  let answer := platform.overTheNetwork host.world reach url "POST".toList (some body)
  set { host with world := answer.2 }
  asked answer.1

/-- The answer to an import that a set of grants offers. -/
def Grants.call (grants : Grants) :
    Imported → List Value → HostM World (Option Value)
  | .sys .console => narrow .console "sys.console".toList
  | .sys .clock => narrow .clock "sys.clock".toList
  | .sys .files => narrow (.dir (grants.files.getD [])) "sys.files".toList
  | .sys .net => narrow (.net (grants.network.getD Reach.none)) "sys.net".toList
  | .io .write => write
  | .io .line => line
  | .io .now => now
  | .io .epoch => epoch platform
  | .io .args => args (grants.arguments.getD [])
  | .io .env => env (grants.environment.getD [])
  | .io .list => list platform
  | .io .open => openDir platform
  | .io .read => read platform
  | .io .save => save platform
  | .io .remove => remove platform
  | .io .make => make platform
  | .io .reach => reach
  | .io .fetch => fetch platform
  | .io .send => send platform

end Deed.Host
