import Mathlib

/-!
# The sources a program needs

`resolve_inputs` of the driver looks for what the seeds import in two loops, one after the
other: the first asks the caller for every name that is wanted, the second takes what is
still unanswered from the modules that ship with the compiler.
-/

namespace Deed.Driver

/-- The modules that ship, in the order they are listed everywhere else. -/
def ORDER : List String :=
  ["std/string", "std/list", "std/table", "std/map", "std/hashmap", "std/set", "std/ratio",
    "std/date", "std/task"]

/--
The parser's answer for a text (the module it declares and the modules it imports, or
nothing where it has no `module` line) and the text of every module that ships.
-/
structure Compiler where
  importsOf : String → Option (String × List String)
  shippedSource : String → Option String
  carried : ∀ name ∈ ORDER, ∃ text uses, shippedSource name = some text ∧
    importsOf text = some (name, uses) ∧ ∀ use ∈ uses, use ∈ ORDER

variable (compiler : Compiler)

/-- The module a text declares. -/
def Compiler.declares (text : String) : Option String :=
  (compiler.importsOf text).map Prod.fst

/-- The modules a text imports. -/
def Compiler.uses (text : String) : List String :=
  (compiler.importsOf text).elim [] Prod.snd

/-- The names that are accounted for (`have`) and the ones still to be looked at. -/
structure Names where
  known : List String
  wanted : List String

/-- The name a text declares is accounted for, what it imports is wanted. -/
def Names.read (names : Names) (text : String) : Names :=
  match compiler.importsOf text with
  | some (declared, uses) => ⟨declared :: names.known, names.wanted ++ uses⟩
  | none => names

/-- Several texts, one after the other. -/
def Names.readAll (texts : List String) : Names :=
  texts.foldl (Names.read compiler) ⟨[], []⟩

/-! ## The caller's sources -/

/-- The first loop: its names, the sources `find` gave and the names it was asked for. -/
structure Gather where
  names : Names
  extras : List (String × String)
  asked : List String

variable (find : String → Option (String × String))

/-- What happens to a name that was taken off the queue. -/
def Gather.turn (state : Gather) (name : String) : Gather :=
  if name ∈ state.names.known then state
  else
    match find name with
    | some found =>
        ⟨state.names.read compiler found.2, state.extras ++ [found], state.asked ++ [name]⟩
    | none => { state with asked := state.asked ++ [name] }

/-- Looks at what is wanted until nothing is, or until the turns run out. -/
def Gather.run : Nat → Gather → Option Gather
  | 0, _ => none
  | turns + 1, state =>
      match state.names.wanted with
      | [] => some state
      | name :: rest =>
          run turns (turn compiler find { state with names := ⟨state.names.known, rest⟩ } name)

/-! ## The compiler's own modules -/

/-- The second loop: its names and the modules it took. -/
structure Shipping where
  names : Names
  taken : List String

/-- A name nothing else answers to is taken where the table has it. -/
def takeOne (known taken : List String) (name : String) : List String :=
  if name ∈ known ∨ name ∈ taken then taken
  else
    match ORDER.find? (fun listed => listed == name) with
    | some listed => taken ++ [listed]
    | none => taken

/-- The names of a module that was taken. -/
def Names.readShipped (names : Names) (name : String) : Names :=
  match compiler.shippedSource name with
  | some text => names.read compiler text
  | none => names

/-- One round over all that is wanted, and whether it took anything. -/
def takeShipped (state : Shipping) : Shipping × Bool :=
  let before := state.taken.length
  let taken := state.names.wanted.foldl (takeOne state.names.known) state.taken
  let names := (taken.drop before).foldl (Names.readShipped compiler) ⟨state.names.known, []⟩
  (⟨names, taken⟩, decide (before < taken.length))

/-- Round after round while something is taken, or until the rounds run out. -/
def takeRounds : Nat → Shipping → Option (List String)
  | 0, _ => none
  | rounds + 1, state =>
      match takeShipped compiler state with
      | (next, true) => takeRounds rounds next
      | (next, false) => some next.taken

def shippedFor (rounds : Nat) (sources : List String) : Option (List String) :=
  takeRounds compiler rounds ⟨Names.readAll compiler sources, []⟩

/-! ## Both -/

/-- The answer, and what `find` was asked for on the way. -/
structure Inputs where
  asked : List String
  extras : List (String × String)
  shipped : List String

def resolveInputs (turns rounds : Nat) (seeds : List String) : Option Inputs :=
  (Gather.run compiler find turns ⟨Names.readAll compiler seeds, [], []⟩).bind fun gathered =>
    (shippedFor compiler rounds (seeds ++ gathered.extras.map Prod.snd)).map fun shipped =>
      ⟨gathered.asked, gathered.extras, shipped⟩

/-! ## What they are to answer -/

/-- A source, by where it comes from. -/
inductive Source where
  | seed (text : String)
  | found (answer : String × String)
  | shipped (name : String)
  deriving DecidableEq

/-- The modules a source imports. -/
def Source.uses : Source → List String
  | .seed text => compiler.uses text
  | .found answer => compiler.uses answer.2
  | .shipped name => (compiler.shippedSource name).elim [] compiler.uses

variable (seeds : List String)

/-- A seed declares the name. -/
def Declared (name : String) : Prop := ∃ text ∈ seeds, compiler.declares text = some name

/-- Who answers to a name: a seed, else the caller, else the compiler. -/
inductive Answers : String → Source → Prop where
  | seed {name text : String} : text ∈ seeds → compiler.declares text = some name →
      Answers name (.seed text)
  | found {name : String} {answer : String × String} : ¬ Declared compiler seeds name →
      find name = some answer → Answers name (.found answer)
  | shipped {name : String} : ¬ Declared compiler seeds name → find name = none →
      name ∈ ORDER → Answers name (.shipped name)

/-- The seeds, and whoever answers to what a source imports. -/
inductive Reached : Source → Prop where
  | seed {text : String} : text ∈ seeds → Reached (.seed text)
  | imported {source other : Source} {name : String} : Reached source →
      name ∈ source.uses compiler → Answers compiler find seeds name other → Reached other

/-- A source that is reached imports the name. -/
def Imported (name : String) : Prop :=
  ∃ source, Reached compiler find seeds source ∧ name ∈ source.uses compiler

/-- The seeds and what was found and taken, as sources. -/
def Inputs.sources (inputs : Inputs) : List Source :=
  seeds.map .seed ++ inputs.extras.map .found ++ inputs.shipped.map .shipped

/-- The inputs are the sources that are reached, each asked for and given once. -/
structure Inputs.Closure (inputs : Inputs) : Prop where
  askedOnce : inputs.asked.Nodup
  askedOutside : ∀ name ∈ inputs.asked, ¬ Declared compiler seeds name
  foundOnce : inputs.extras.Nodup
  shippedOnce : inputs.shipped.Nodup
  exact_ : ∀ source, source ∈ inputs.sources seeds ↔ Reached compiler find seeds source

/-- The loops end, and what they answer is the closure of the seeds. -/
def Resolves : Prop :=
  ∃ turns rounds inputs, resolveInputs compiler find turns rounds seeds = some inputs ∧
    inputs.Closure compiler find seeds

/-! ## When they do -/

/-- The names the first loop comes to, which is over before a shipped module is read. -/
inductive Sought : String → Prop where
  | seed {text name : String} : text ∈ seeds → name ∈ compiler.uses text → Sought name
  | found {asked name : String} {answer : String × String} : Sought asked →
      ¬ Declared compiler seeds asked → find asked = some answer →
      name ∈ compiler.uses answer.2 → Sought name

/-- The names the caller is to be asked for. -/
def Consulted (name : String) : Prop :=
  Sought compiler find seeds name ∧ ¬ Declared compiler seeds name

/-- What the source found under a name imports. -/
def foundUses (name : String) : List String :=
  (find name).elim [] fun answer => compiler.uses answer.2

/-- The seeds and the sources found, each taken once, import the name once at most. -/
def ImportedOnce (name : String) : Prop :=
  ∀ asked : List String, asked.Nodup → (∀ other ∈ asked, Consulted compiler find seeds other) →
    (seeds.flatMap compiler.uses ++ asked.flatMap (foundUses compiler find)).count name ≤ 1

/-- No source that is found declares another name that is imported. -/
def Candid : Prop :=
  ∀ name answer declared, Imported compiler find seeds name → ¬ Declared compiler seeds name →
    find name = some answer → compiler.declares answer.2 = some declared →
    Imported compiler find seeds declared → declared = name ∨ Declared compiler seeds declared

/-- The source that is found under a name declares it. -/
def Own (name : String) : Prop :=
  ∃ answer, find name = some answer ∧ compiler.declares answer.2 = some name

/-- What the loops leave out, as a condition on the seeds and on `find`. -/
structure Plain : Prop where
  once : ∀ name, Consulted compiler find seeds name → Own compiler find name ∨
    (ImportedOnce compiler find seeds name ∧ (name ∈ ORDER → find name = none))
  apart : ∀ name other answer, Consulted compiler find seeds name →
    Consulted compiler find seeds other → find name = some answer → find other = some answer →
    name = other
  early : ∀ name answer, Imported compiler find seeds name → ¬ Declared compiler seeds name →
    find name = some answer → Sought compiler find seeds name

end Deed.Driver
