import Deed.Eval.Value

/-!
# A program as the interpreter holds it

The part of `crates/deed-resolve` that running reads, and `Code`, one module indexed by
definition.  A table that is only looked something up in is a function; the tables of
functions and handlers are also searched by name, so they are lists, and a handler's
definition stands in its table once.
-/

namespace Deed.Eval

open Deed.Ast

/-- What kind of thing a definition is. -/
inductive DefKind where
  | builtin
  | type
  | record
  | choice
  | variant
  | effect
  | effectOp
  | handler
  | function
  | param
  | typeParam
  | rowParam
  | state
  | local
  | import
deriving DecidableEq, Repr

/-- What kind of thing a name refers to on the other side of an import. -/
inductive ExportKind where
  | type
  | record
  | choice
  | variant
  | effect
  | handler
  | function
deriving DecidableEq, Repr

structure DefData where
  kind : DefKind
  name : String
  /-- The choice a variant belongs to, or the effect an operation belongs to. -/
  parent : Option DefId

/-- The result of resolving one module. -/
structure Resolutions where
  definition : DefId → DefData
  /-- What the identifier at a span refers to. -/
  resolution : Span → Option DefId
  /-- A name that the language provides. -/
  builtin : String → Option DefId
  /-- What an imported name is, on the other side of the import. -/
  imports : DefId → Option ExportKind
  /-- Which module an imported name came from. -/
  importModule : DefId → Option String

/-- The definition `result` refers to inside an obligation, if it is used. -/
def resultDef (expr : Expr) (resolutions : Resolutions) : Option DefId :=
  expr.walk.findSome? fun inside =>
    match inside with
    | .ident ident => if ident.name = "result" then resolutions.resolution ident.span else none
    | _ => none

/-- Every `old(...)` inside an expression, as its span and what it wraps. -/
def collectOlds (expr : Expr) : List (Span × Expr) :=
  expr.walk.filterMap fun inside =>
    match inside with
    | .old inner span => some (span, inner)
    | _ => none

/-- What has to be checked at one span. -/
structure Guard where
  refinement : DefId
  /-- Whether the value is the number inside the `ok`. -/
  insideOk : Bool

/-- One entry of a row that a function declared. -/
structure RowItem where
  effect : DefId
  /-- `none` means every operation of the effect. -/
  operation : Option String

/-- One module's code, indexed the way the interpreter needs it. -/
structure Code where
  path : String
  file : FileId
  resolutions : Resolutions
  functions : List (DefId × FnDecl)
  handlerDecls : List (DefId × HandlerDecl)
  /-- Type alias definition to the predicate it refines by. -/
  refinements : DefId → Option Expr
  /-- Type alias definition to the `value` its predicate talks about. -/
  subjects : DefId → Option DefId
  guards : Span → Option Guard
  /-- What each function in this module declared it performs. -/
  rows : Span → Option (List RowItem)
  /-- Which function each operator written in this module goes to. -/
  operators : Span → Option (String × String)
  /-- Handler state definition to the field name it stands for. -/
  stateNames : DefId → Option String
  handlersDistinct : (handlerDecls.map Prod.fst).Nodup

namespace Code

variable (code : Code)

def function (definition : DefId) : Option FnDecl :=
  (code.functions.find? fun entry => entry.1 == definition).map Prod.snd

def handlerDecl (definition : DefId) : Option HandlerDecl :=
  (code.handlerDecls.find? fun entry => entry.1 == definition).map Prod.snd

/-- The function a module declares under a name. -/
def functionNamed (name : String) : Option FnDecl :=
  (code.functions.find? fun entry =>
    (code.resolutions.definition entry.1).name == name).map Prod.snd

/-- The handler a module declares under a name. -/
def handlerNamed (name : String) : Option (DefId × HandlerDecl) :=
  code.handlerDecls.find? fun entry => entry.2.name.name == name

def kindOf (definition : DefId) : DefKind := (code.resolutions.definition definition).kind

def nameOf (definition : DefId) : String := (code.resolutions.definition definition).name

def defOf (ident : Ident) : Option DefId := code.resolutions.resolution ident.span

/-- Whether an imported name is a record in the module it came from. -/
def importedRecord (definition : DefId) : Bool :=
  code.resolutions.imports definition == some .record

end Code

/-- What one active call promised. -/
structure Promise where
  name : String
  allowed : List (Origin × Option String)

/-- Whether a row admits performing one operation. -/
def Promise.covers (promise : Promise) (effect : Origin) (operation : String) : Bool :=
  promise.allowed.any fun entry =>
    entry.1 == effect && (entry.2.isNone || entry.2 == some operation)

/-- Every module of a program, and what the entry point declared. -/
structure Program where
  modules : List Code
  /-- The row `main` wrote down, when the run has an entry point. -/
  entry : Option Promise

def PRELUDE_MODULE : String := "<prelude>"

namespace Program

variable (program : Program)

/-- Which module a path names: `by_path`, where the last module of a path is the one that
stayed. -/
def byPath (path : String) : Option Nat :=
  (program.modules.zipIdx.reverse.find? fun entry => entry.1.path == path).map Prod.snd

/-- The path of an imported name's module. -/
def importedPath (path : String) : String :=
  match (program.byPath path).bind fun index => program.modules[index]? with
  | some there => there.path
  | none => path

/-- The function that an imported name refers to, and the module it lives in. -/
def importedFunction (here : Code) (definition : DefId) : Option (Nat × FnDecl) :=
  if here.resolutions.imports definition = some .function then do
    let path ← here.resolutions.importModule definition
    let index ← program.byPath path
    let there ← program.modules[index]?
    let function ← there.functionNamed (here.nameOf definition)
    some (index, function)
  else none

/-- Which module declared a variant, and what it is called there. -/
def variantId (here : Code) (definition : DefId) : Option (String × String) :=
  match here.kindOf definition with
  | .variant => some (here.path, here.nameOf definition)
  | .import =>
      if here.resolutions.imports definition = some .variant then
        (here.resolutions.importModule definition).map fun path =>
          (program.importedPath path, here.nameOf definition)
      else none
  | _ => none

/-- Which module declared an effect, and what it is called there.  An operation names its
effect through its parent; the limit is how many parents are asked. -/
def effectIdWithin (there : Code) : Nat → DefId → Option Origin
  | 0, _ => none
  | limit + 1, definition =>
      match there.kindOf definition with
      | .effect => some (there.path, there.nameOf definition)
      | .import =>
          if there.resolutions.imports definition = some .effect then
            (there.resolutions.importModule definition).map fun path =>
              (program.importedPath path, there.nameOf definition)
          else none
      | .effectOp =>
          ((there.resolutions.definition definition).parent).bind
            (effectIdWithin there limit)
      | .builtin => some (PRELUDE_MODULE, there.nameOf definition)
      | _ => none

/-- The same with a limit that is never met: a parent is declared before what belongs to
it, so its definition is the smaller number. -/
def effectId (there : Code) (definition : DefId) : Option Origin :=
  program.effectIdWithin there (definition + 1) definition

/-- The handler a name refers to, wherever it was declared. -/
def handlerAt (current : Nat) (here : Code) (definition : DefId) :
    Option (Nat × DefId × HandlerDecl) :=
  if here.kindOf definition = .handler then
    (here.handlerDecl definition).map fun declaration => (current, definition, declaration)
  else if here.resolutions.imports definition = some .handler then do
    let path ← here.resolutions.importModule definition
    let index ← program.byPath path
    let there ← program.modules[index]?
    let (handler, declaration) ← there.handlerNamed (here.nameOf definition)
    some (index, handler, declaration)
  else none

/-- The row that a declaration wrote down, when it says something a call can be held to. -/
def promiseOf (here : Code) (function : FnDecl) : Option Promise :=
  match here.rows function.sig.name.span with
  | none => none
  | some items =>
      if items.any fun item => here.kindOf item.effect == .rowParam then none
      else some {
        name := function.sig.name.name
        allowed := items.filterMap fun item =>
          (program.effectId here item.effect).map fun effect => (effect, item.operation) }

end Program

end Deed.Eval
