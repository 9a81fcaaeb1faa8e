import Deed.Codegen.Compile

/-!
# Compiling a whole program

`compile` of `crates/deed-codegen/src/compile.rs`.  Imports and the functions the backend
writes itself are numbered before any body is compiled, so what the bodies will ask for is
collected first, by one walk over every expression.  The spans of the instructions and the
sizes they are placed by are left out.
-/

namespace Deed.Codegen

open Deed.Library
open Deed.Wasm Deed.Mir Deed.Runtime

/-! ## The walk -/

mutual

/-- Every expression of an expression, outermost first.  What is folded into a hash is not
gone into. -/
def walkExpr : Expr → List Expr
  | .unary op operand => .unary op operand :: walkExpr operand
  | .binary op left right span =>
      .binary op left right span :: (walkExpr left ++ walkExpr right)
  | .call func args span => .call func args span :: walkExprs args
  | .make layout variant fields => .make layout variant fields :: walkExprs fields
  | .list element items => .list element items :: walkExprs items
  | .runtime name args ret => .runtime name args ret :: walkExprs args
  | .perform effect operation args ret => .perform effect operation args ret :: walkExprs args
  | .host name args ret => .host name args ret :: walkExprs args
  | .callIndirect callee args ret span =>
      .callIndirect callee args ret span :: (walkExpr callee ++ walkExprs args)
  | .field value layout variant field => .field value layout variant field :: walkExpr value
  | .discriminant value layout => .discriminant value layout :: walkExpr value
  | .if_ condition then_ otherwise ty =>
      .if_ condition then_ otherwise ty ::
        (walkExpr condition ++ walkBlock then_ ++ walkBlock otherwise)
  | .block inner => .block inner :: walkBlock inner
  | .elementAt list index element =>
      .elementAt list index element :: (walkExpr list ++ walkExpr index)
  | .install effect state operations body ty =>
      .install effect state operations body ty :: (walkExpr state ++ walkBlock body)
  | expr => [expr]

def walkExprs : List Expr → List Expr
  | [] => []
  | first :: rest => walkExpr first ++ walkExprs rest

/-- Every expression in a block. -/
def walkBlock : Block → List Expr
  | .mk body value => walkStmts body ++ walkExpr value

def walkStmt : Stmt → List Expr
  | .assign _ value => walkExpr value
  | .discard value => walkExpr value
  | .return_ value => walkExpr value
  | .fail _ _ _ => []
  | .while_ condition body => walkExpr condition ++ walkStmts body
  | .setField object _ _ _ value => walkExpr object ++ walkExpr value

def walkStmts : List Stmt → List Expr
  | [] => []
  | first :: rest => walkStmt first ++ walkStmts rest

end

/-- Every expression that a program's bodies are walked for, with its function. -/
def visits (program : Program) : List (Function × Expr) :=
  program.functions.flatMap fun function =>
    (walkBlock function.body).map fun expr => (function, expr)

/-! ## What is collected -/

/-- How some values travel. -/
def shapeOf (program : Program) (function : Function) (args : List Expr) (ret : Ty) :
    FuncType :=
  ⟨args.filterMap fun arg => valType (tyIn program function arg), (valType ret).toList⟩

/-- The shape of an indirect call, which hands over one word before the arguments. -/
def reachedBy (program : Program) (visit : Function × Expr) : Option FuncType :=
  let reaches (args : List Expr) (ret : Ty) : FuncType :=
    let shape := shapeOf program visit.1 args ret
    ⟨.i64 :: shape.params, shape.results⟩
  match visit.2 with
  | .callIndirect _ args ret _ => some (reaches args ret)
  | .perform _ _ args ret => some (reaches args ret)
  | _ => none

/-- Every shape an indirect call reaches. -/
def reached (program : Program) : List FuncType :=
  (visits program).filterMap (reachedBy program)

/-- Notes a host call, once for each name. -/
def noteHost (program : Program) (found : List (String × FuncType))
    (visit : Function × Expr) : List (String × FuncType) :=
  match visit.2 with
  | .host name args ret =>
      if found.any fun seen => seen.1 == name then found
      else found ++ [(name, shapeOf program visit.1 args ret)]
  | _ => found

/-- Every host call the program makes, by name, with the signature it wants. -/
def hostCalls (program : Program) : List (String × FuncType) :=
  (visits program).foldl (noteHost program) []

/-- The operations that the walk finds performed, and the effects it finds installed. -/
def performed (program : Program) : List (EffectId × Nat) :=
  (visits program).filterMap fun visit =>
    match visit.2 with
    | .perform effect operation _ _ => some (effect, operation)
    | _ => none

def installed (program : Program) : List EffectId :=
  (visits program).filterMap fun visit =>
    match visit.2 with
    | .install effect _ _ _ _ => some effect
    | _ => none

/-- The order of a set of pairs. -/
def pairLe (left right : EffectId × Nat) : Bool :=
  left.1 < right.1 || (left.1 == right.1 && left.2 ≤ right.2)

/-- What a host that offers an effect's operations calls itself. -/
def namespaceOf (lowercase : String → String) (effect : Effect) : String :=
  match effect.interface with
  | some interface => interface
  | none => "deed:" ++ lowercase effect.name

/-- An operation the program can only get an answer to from its host. -/
structure Escaping where
  «namespace» : String
  operation : String
  effect : EffectId
  position : Nat

/-- Every operation of an effect that nothing in the program handles. -/
def escapingOperations (lowercase : String → String) (program : Program) : List Escaping :=
  (((performed program).dedup.mergeSort pairLe).filter fun entry =>
    entry.1 ∉ installed program).map fun entry =>
      let declared := effectAt program entry.1
      ⟨namespaceOf lowercase declared, declared.operations.getD entry.2 "", entry.1, entry.2⟩

/-- What the host is asked for when an operation escapes, as it was performed last. -/
def performedSignature (program : Program) (effect : EffectId) (position : Nat) : FuncType :=
  (visits program).foldl (fun found visit =>
    match visit.2 with
    | .perform performed operation args ret =>
        if performed = effect ∧ operation = position then shapeOf program visit.1 args ret
        else found
    | _ => found) ⟨[], []⟩

/-- Notes the shape of the operands of `==` and `!=`. -/
def noteCompared (program : Program) (found : List Ty) (visit : Function × Expr) : List Ty :=
  match visit.2 with
  | .binary op left _ _ =>
      if op = .eq ∨ op = .ne then
        let operand := tyIn program visit.1 left
        if Equality.walked operand ∧ operand ∉ found then found ++ [operand] else found
      else found
  | _ => found

/-- Every shape a program compares two of, and every shape those hold. -/
def compared (program : Program) : Option (List Ty) :=
  Equality.closeOver program ((visits program).foldl (noteCompared program) [])

def noteHashed (found : List Ty) (visit : Function × Expr) : List Ty :=
  match visit.2 with
  | .hashed _ ty => if Hashing.walked ty ∧ ty ∉ found then found ++ [ty] else found
  | _ => found

/-- Every shape a program hashes, and every shape those hold. -/
def hashed (program : Program) : Option (List Ty) :=
  Equality.closeOver program ((visits program).foldl noteHashed [])

/-- The helper that an operator calls. -/
def helperOfBinary (program : Program) (visit : Function × Expr) : Option Helper :=
  match visit.2 with
  | .binary .concatStr _ _ _ => some .joinedText
  | .binary .ltStr _ _ _ | .binary .leStr _ _ _ | .binary .gtStr _ _ _
  | .binary .geStr _ _ _ => some .textOrder
  | .binary .eq left _ _ | .binary .ne left _ _ =>
      if tyIn program visit.1 left = .str then some .sameText else none
  | _ => none

def helperOfRuntime (visit : Function × Expr) : Option Helper :=
  match visit.2 with
  | .runtime name _ _ => RuntimeName.helper name
  | _ => none

/-- Adds what is not there yet. -/
def noteAll (found wanted : List Helper) : List Helper :=
  wanted.foldl (fun found helper => if helper ∈ found then found else found ++ [helper]) found

/-- Whether a bare string is hashed somewhere. -/
def hashesText (program : Program) : Bool :=
  (visits program).any fun visit =>
    match visit.2 with
    | .hashed _ ty => ty == .str
    | _ => false

/-- The helpers that the shapes and the bodies ask for themselves. -/
def asked (program : Program) (shapes folded : List Ty) : List Helper :=
  let fixed := [.grownMemory] ++
    (if Equality.needsText program shapes then [.sameText] else []) ++
    (if Equality.needsText program folded || hashesText program then [.hashedText] else [])
  program.functions.foldl (fun found function =>
    let visits := (walkBlock function.body).map fun expr => (function, expr)
    noteAll (noteAll found (visits.filterMap (helperOfBinary program)))
      (visits.filterMap helperOfRuntime)) fixed

/-- Every helper, in the order they are emitted. -/
def Helper.all : List Helper :=
  [.sameText, .textOrder, .joinedText, .textSlice, .textSearch, .numberText, .textNumber,
    .textPieces, .piecesText, .trimmedText, .raisedText, .loweredText, .listElement,
    .listExtended, .listFilled, .listRoom, .listRoomFrom, .listAppended, .hashedText,
    .grownMemory]

/-- Which of the functions this backend writes the program reaches. -/
def helpersUsed (program : Program) (shapes folded : List Ty) : Option (List Helper) :=
  let found := asked program shapes folded
  (Worklist.close Helper.needs (Helper.all.length + found.length + 1) (.start found)).map
    fun closed => Helper.all.filter fun helper => helper ∈ closed

/-! ## The module -/

/-- Interns a signature and hands back its index. -/
def internType (module : Module) (ty : FuncType) : UInt32 × Module :=
  match module.types.findIdx? fun existing => existing == ty with
  | some found => (.ofNat found, module)
  | none => (.ofNat module.types.length, { module with types := module.types ++ [ty] })

/-- Declares something the host has to supply; two calls of one operation are one import. -/
def addImport (module : Module) («namespace» name : String) (typeIndex : UInt32) : Module :=
  if module.imports.any fun found => found.module == «namespace» && found.name == name then
    module
  else { module with imports := module.imports ++ [⟨«namespace», name, typeIndex⟩] }

def addFunc (module : Module) (func : Func) : UInt32 × Module :=
  (.ofNat (module.imports.length + module.funcs.length),
    { module with funcs := module.funcs ++ [func] })

/-- Adds a function, and the name it goes by in a trap. -/
def addNamed (module : Module) (func : Func) (name : String) : Module :=
  let (index, added) := addFunc module func
  { added with names := added.names ++ [(index, name)] }

/-- Puts a function in the table, if it is new. -/
def internTable (module : Module) (func : UInt32) : Module :=
  if func ∈ module.table then module else { module with table := module.table ++ [func] }

def signatureOf (function : Function) : FuncType :=
  ⟨function.params.filterMap valType, (valType function.ret).toList⟩

/-- What a host call is imported as. -/
def importName (name : String) : String × String :=
  match splitOnce ['.'] name.toList with
  | some (namespace_, operation) => ("deed:" ++ String.ofList namespace_, String.ofList operation)
  | none => ("deed:" ++ "deed", name)

/-- Imports something with its signature. -/
def importAs (module : Module) (name : String × String) (signature : FuncType) : Module :=
  let (typeIndex, interned) := internType module signature
  addImport interned name.1 name.2 typeIndex

/-- The signatures and the imports, before any function. -/
def declared (lowercase : String → String) (program : Program) : Module :=
  let empty : Module := ⟨[], [], [], [], some 16, some "memory", [], [], []⟩
  let signed := (program.functions.map signatureOf).foldl
    (fun module ty => (internType module ty).2) empty
  let reaching := (reached program).foldl (fun module ty => (internType module ty).2) signed
  let hosted := (hostCalls program).foldl
    (fun module entry => importAs module (importName entry.1) entry.2) reaching
  let answered := (escapingOperations lowercase program).foldl
    (fun module entry => importAs module (entry.namespace, entry.operation)
      (performedSignature program entry.effect entry.position)) hosted
  { answered with names := answered.imports.zipIdx.map fun entry =>
      (.ofNat entry.2, entry.1.name) }

/-- What is known before any body is compiled. -/
structure Collected where
  module : Module
  shapes : List Ty
  folded : List Ty
  helpers : List Helper

def collect (lowercase : String → String) (program : Program) : Option Collected := do
  let shapes ← compared program
  let folded ← hashed program
  let helpers ← helpersUsed program shapes folded
  some ⟨declared lowercase program, shapes, folded, helpers⟩

namespace Collected

variable (collected : Collected) (program : Program)

/-- How many imports come before the first function. -/
def shift : Nat := collected.module.imports.length

/-- Where the helpers, the comparisons and the folds start. -/
def base : Nat := collected.shift + program.functions.length

def after : Nat := collected.base program + collected.helpers.length

def foldsAt : Nat := collected.after program + collected.shapes.length

/-- Where each helper is numbered. -/
def whereHelpers (helper : Helper) : Option UInt32 :=
  (collected.helpers.findIdx? fun found => found == helper).map fun position =>
    .ofNat (collected.base program + position)

/-- Where each shape of a list is numbered. -/
def numbered (shapes : List Ty) (start : Nat) : List (Ty × UInt32) :=
  shapes.zipIdx.map fun entry => (entry.1, .ofNat (start + entry.2))

def whereEquals : List (Ty × UInt32) := numbered collected.shapes (collected.after program)

def whereHashes : List (Ty × UInt32) := numbered collected.folded (collected.foldsAt program)

/-- The builder of a function. -/
def builder (lowercase : String → String) (function : Function) : Builder where
  program := program
  function := function
  signatures := collected.module.types
  imports := collected.module.imports
  shift := .ofNat collected.shift
  helpers := collected.whereHelpers program
  equals := collected.whereEquals program
  hashes := collected.whereHashes program
  lowercase := lowercase

end Collected

/-- The slots of a function beyond its parameters that have a representation. -/
def extraLocals (function : Function) : List ValType :=
  (function.locals.drop function.params.length).filterMap valType

/-- Where the frame stack starts. -/
def FRAME_START : Nat := 40

/-- A module and the literals placed so far. -/
structure Assembled where
  module : Module
  strings : Strings

/-- Compiles one body and adds what it comes to. -/
def compileFunction (lowercase : String → String) (collected : Collected) (program : Program)
    (function : Function) : Action Assembled Unsupported Unit := fun state =>
  let (typeIndex, interned) := internType state.module (signatureOf function)
  match (collected.builder program lowercase function).block function.body
      ⟨state.strings, extraLocals function, []⟩ with
  | none => none
  | some (.error why, drafted) => some (.error why, ⟨interned, drafted.strings⟩)
  | some (.ok code, drafted) =>
      let (index, added) :=
        addFunc interned ⟨typeIndex, drafted.extraLocals, code ++ [.return_]⟩
      some (.ok (), ⟨internTable
        { added with
          exports := added.exports ++ [(function.name, index)]
          names := added.names ++ [(index, function.name)] } index, drafted.strings⟩)

/-- The literals a helper places, in the order it meets them. -/
def Helper.literals : Helper → List String
  | .listElement => ["index ", " is outside a list of "]
  | .textNumber => ["\x60", "\x60 is not a number"]
  | _ => []

/-- Writes one helper into the module. -/
def writeHelper (collected : Collected) (program : Program) (helper : Helper) :
    Action Assembled Unsupported Unit :=
  Action.change fun state =>
    let (typeIndex, interned) := internType state.module helper.signature
    let strings := (Helper.literals helper).foldl (fun strings text => (strings.place text).2)
      state.strings
    -- A helper only calls what it says it needs, and only places what is placed already.
    let written := helper.compile
      ⟨fun called => (collected.whereHelpers program called).getD 0,
        fun text => (strings.place text).1⟩
    ⟨addNamed interned ⟨typeIndex, written.1, written.2⟩ (helperName helper), strings⟩

/-- Writes one function of the backend for a shape; `named` is what it is called in a trap. -/
def writeShape (signature : FuncType) (compiled : List ValType × List Ins) (named : String) :
    Action Assembled Unsupported Unit :=
  Action.change fun state =>
    let (typeIndex, interned) := internType state.module signature
    { state with module := addNamed interned ⟨typeIndex, compiled.1, compiled.2⟩ named }

/-- One step for each element, in order. -/
def each {α : Type} (step : α → Action Assembled Unsupported Unit) :
    List α → Action Assembled Unsupported Unit
  | [] => pure ()
  | first :: rest => do
      step first
      each step rest

/-- Places the bump pointers past every literal. -/
def place (state : Assembled) : Module :=
  { state.module with
    data := state.strings.data ++
      [(.ofNat BUMP, wordBytes (.ofNat state.strings.next.toNat)),
        (.ofNat FRAME_BUMP, wordBytes (.ofNat FRAME_START))] }

/-- The bodies, and then what the backend writes itself, in the order they are numbered;
`written` is how a shape is written out. -/
def assemble (lowercase : String → String) (written : Ty → String) (collected : Collected)
    (program : Program) : Action Assembled Unsupported Module := do
  each (compileFunction lowercase collected program) program.functions
  each (writeHelper collected program) collected.helpers
  let sameText := (collected.whereHelpers program .sameText).getD 0
  let hashText := (collected.whereHelpers program .hashedText).getD 0
  each (fun shape => writeShape Equality.signature
    (Equality.compile program shape ⟨collected.whereEquals program, sameText⟩)
    ("same " ++ written shape)) collected.shapes
  each (fun shape => writeShape Hashing.signature
    (Hashing.compile program shape ⟨collected.whereHashes program, hashText⟩)
    ("hash " ++ written shape)) collected.folded
  Action.look place

/-- Compiles a whole program, or says what stopped it. -/
def compile (lowercase : String → String) (written : Ty → String) (program : Program) :
    Option (Except Unsupported Module) := do
  let collected ← collect lowercase program
  let ended ← assemble lowercase written collected program
    ⟨collected.module, ⟨.ofNat HEAP_START, [], []⟩⟩
  some ended.1

end Deed.Codegen
