import Deed.Wasm.Encode

/-!
# Valid modules

The typing rules of the WebAssembly specification for the instructions that the encoder
knows, and what a module besides its bodies has to keep to.  A stack type has the top of
the stack first.
-/

namespace Deed.Wasm

/-- What a body is typed against: the module's types and functions, the function's locals
and results, and the labels around an instruction, the innermost first. -/
structure Context where
  types : List FuncType
  /-- The type index of every function, the imported ones first. -/
  functions : List UInt32
  /-- Whether the module has a table. -/
  table : Bool
  /-- Whether it has a memory. -/
  memory : Bool
  locals : List ValType
  results : List ValType
  labels : List (List ValType)

/-- The context inside a block, whose label is the innermost one. -/
def Context.inside (context : Context) (label : List ValType) : Context :=
  { context with labels := label :: context.labels }

/-- The type of a function, by its index. -/
def Context.function (context : Context) (index : UInt32) : Option FuncType :=
  context.functions[index.toNat]?.bind fun typeIndex => context.types[typeIndex.toNat]?

/-- What an instruction takes from the stack and leaves there, where that is all there is to
its rule; an instruction of memory needs one. -/
inductive Takes : Ins → (memory : Bool) → (operands results : List ValType) → Prop
  | nop {memory} : Takes .nop memory [] []
  | i32Const {memory} (value : Int32) : Takes (.i32Const value) memory [] [.i32]
  | i64Const {memory} (value : Int64) : Takes (.i64Const value) memory [] [.i64]
  | i32Binary {memory} {instruction : Ins} :
      instruction ∈ [.i32Add, .i32Sub, .i32Mul, .i32And, .i32Or, .i32Eq, .i32Ne, .i32LtS,
        .i32LeS, .i32GtS, .i32GeS] →
      Takes instruction memory [.i32, .i32] [.i32]
  | i32Eqz {memory} : Takes .i32Eqz memory [.i32] [.i32]
  | i64Binary {memory} {instruction : Ins} :
      instruction ∈ [.i64Add, .i64Sub, .i64Mul, .i64Xor, .i64DivS, .i64RemS] →
      Takes instruction memory [.i64, .i64] [.i64]
  | i64Compare {memory} {instruction : Ins} :
      instruction ∈ [.i64Eq, .i64Ne, .i64LtS, .i64LeS, .i64GtS, .i64GeS] →
      Takes instruction memory [.i64, .i64] [.i32]
  | i64Eqz {memory} : Takes .i64Eqz memory [.i64] [.i32]
  | i32WrapI64 {memory} : Takes .i32WrapI64 memory [.i64] [.i32]
  | i64ExtendI32S {memory} : Takes .i64ExtendI32S memory [.i32] [.i64]
  | i32Load (offset : UInt32) : Takes (.i32Load offset) true [.i32] [.i32]
  | i32Load8U (offset : UInt32) : Takes (.i32Load8U offset) true [.i32] [.i32]
  | i64Load (offset : UInt32) : Takes (.i64Load offset) true [.i32] [.i64]
  | i32Store (offset : UInt32) : Takes (.i32Store offset) true [.i32, .i32] []
  | i32Store8 (offset : UInt32) : Takes (.i32Store8 offset) true [.i32, .i32] []
  | i64Store (offset : UInt32) : Takes (.i64Store offset) true [.i64, .i32] []
  | memorySize : Takes .memorySize true [] [.i32]
  | memoryGrow : Takes .memoryGrow true [.i32] [.i32]

mutual

/-- An instruction takes some types from the top of the stack and leaves others. -/
inductive HasType : Context → Ins → List ValType → List ValType → Prop
  | plain {context instruction operands results} :
      Takes instruction context.memory operands results →
      HasType context instruction operands results
  /-- The marker is not part of the module. -/
  | marked {context site inner operands results} :
      HasType context inner operands results →
      HasType context (.marked site inner) operands results
  | unreachable {context operands results} : HasType context .unreachable operands results
  | drop {context ty} : HasType context .drop [ty] []
  | localGet {context index ty} : context.locals[index.toNat]? = some ty →
      HasType context (.localGet index) [] [ty]
  | localSet {context index ty} : context.locals[index.toNat]? = some ty →
      HasType context (.localSet index) [ty] []
  | localTee {context index ty} : context.locals[index.toNat]? = some ty →
      HasType context (.localTee index) [ty] [ty]
  | block {context result body} :
      HasTypes (context.inside result.toList) body [] result.toList →
      HasType context (.block result body) [] result.toList
  /-- Branching to a loop goes back to its start, which takes nothing. -/
  | loop {context result body} :
      HasTypes (context.inside []) body [] result.toList →
      HasType context (.loop result body) [] result.toList
  | if_ {context result then_ otherwise} :
      HasTypes (context.inside result.toList) then_ [] result.toList →
      HasTypes (context.inside result.toList) otherwise [] result.toList →
      HasType context (.if_ result then_ otherwise) [.i32] result.toList
  | br {context depth label operands results} : context.labels[depth.toNat]? = some label →
      HasType context (.br depth) (label.reverse ++ operands) results
  | brIf {context depth label} : context.labels[depth.toNat]? = some label →
      HasType context (.brIf depth) (.i32 :: label.reverse) label.reverse
  | return_ {context operands results} :
      HasType context .return_ (context.results.reverse ++ operands) results
  | call {context index ty} : context.function index = some ty →
      HasType context (.call index) ty.params.reverse ty.results.reverse
  | callIndirect {context typeIndex ty} : context.table = true →
      context.types[typeIndex.toNat]? = some ty →
      HasType context (.callIndirect typeIndex) (.i32 :: ty.params.reverse) ty.results.reverse

/-- Instructions take a stack to another; what is under an instruction's operands stays. -/
inductive HasTypes : Context → List Ins → List ValType → List ValType → Prop
  | nil {context stack} : HasTypes context [] stack stack
  | cons {context instruction rest operands results stack after} :
      HasType context instruction operands results →
      HasTypes context rest (results ++ stack) after →
      HasTypes context (instruction :: rest) (operands ++ stack) after

end

/-- The context of a function's body. -/
def Module.context (module : Module) (signature : FuncType) (func : Func) : Context where
  types := module.types
  functions := module.imports.map (·.typeIndex) ++ module.funcs.map (·.typeIndex)
  table := !module.table.isEmpty
  memory := module.memoryPages.isSome
  locals := signature.params ++ func.locals
  results := signature.results
  labels := [signature.results]

/-- How many functions a module has, the imported ones included. -/
def Module.functionCount (module : Module) : Nat :=
  module.imports.length + module.funcs.length

/-- The names under which a module exports something. -/
def Module.exportNames (module : Module) : List String :=
  module.exports.map Prod.fst ++ module.exportedMemory.toList

/-- A module that the specification calls valid. -/
structure Module.Valid (module : Module) : Prop where
  imports : ∀ import_ ∈ module.imports, import_.typeIndex.toNat < module.types.length
  funcs : ∀ func ∈ module.funcs, ∃ signature,
    module.types[func.typeIndex.toNat]? = some signature ∧
      HasTypes (module.context signature func) func.body [] signature.results.reverse
  table : ∀ index ∈ module.table, index.toNat < module.functionCount
  pages : ∀ pages, module.memoryPages = some pages → pages.toNat ≤ 65536
  exports : ∀ exported ∈ module.exports, exported.2.toNat < module.functionCount
  exportedMemory : module.exportedMemory.isSome = true → module.memoryPages.isSome = true
  names : module.exportNames.Nodup
  data : module.data ≠ [] → module.memoryPages.isSome = true

end Deed.Wasm
