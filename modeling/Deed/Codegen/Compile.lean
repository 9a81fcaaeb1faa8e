import Deed.Codegen.Equality
import Deed.Codegen.Hashing
import Deed.Library.Action
import Deed.Library.Splitting

/-!
# Turning a function body into instructions

`Builder` of `crates/deed-codegen/src/compile.rs`.  A method that pushes to the builder's
instructions answers them here; what else a builder changes while it works, the literals it
placed, the slots it handed out and the sites it marked, is the state of `Emit`.
-/

namespace Deed.Codegen

open Deed.Ast (Span)
open Deed.Library
open Deed.Wasm Deed.Mir Deed.Runtime

/-- What a backend says about a program it will not compile. -/
structure Unsupported where
  function : String
  what : String
deriving DecidableEq, Repr

inductive SpanRole where
  | trap
  | call
deriving DecidableEq, Repr

/-- A source span attached to an instruction that is not placed yet. -/
structure SiteDraft where
  span : Span
  role : SpanRole

/-- Every string literal of a program, placed in memory before anything runs. -/
structure Strings where
  next : UInt32
  data : List (UInt32 × List UInt8)
  placed : List (String × UInt32)

/-- A word with its least byte first. -/
def wordBytes (word : UInt64) : List UInt8 :=
  (List.range 8).map fun index => (word >>> (8 * UInt64.ofNat index)).toUInt8

/-- A string as it stands in memory. -/
def Strings.bytes (text : String) : List UInt8 :=
  let written := wordBytes (.ofNat text.length) ++ wordBytes (.ofNat text.utf8ByteSize) ++
    bytesOf text
  written ++ List.replicate (stringSize text.utf8ByteSize - written.length) 0

/-- Where a string lives, placing it if it is new. -/
def Strings.place (strings : Strings) (text : String) : UInt32 × Strings :=
  match strings.placed.find? fun entry => entry.1 == text with
  | some (_, address) => (address, strings)
  | none =>
      let bytes := Strings.bytes text
      (strings.next, {
        next := strings.next + .ofNat bytes.length
        data := strings.data ++ [(strings.next, bytes)]
        placed := strings.placed ++ [(text, strings.next)] })

/-- What a builder changes while it works. -/
structure Drafted where
  strings : Strings
  extraLocals : List ValType
  sites : List SiteDraft

/-- Works on what a builder changes, or says what is not supported. -/
abbrev Emit (α : Type) : Type := Action Drafted Unsupported α

/-- What a builder is given. -/
structure Builder where
  program : Program
  function : Function
  /-- Every signature the module has interned. -/
  signatures : List FuncType
  /-- What the host supplies, in the order it is numbered. -/
  imports : List Import
  /-- How many imports come before the first defined function. -/
  shift : UInt32
  /-- Where each function the backend writes itself is numbered. -/
  helpers : Helper → Option UInt32
  equals : List (Mir.Ty × UInt32)
  hashes : List (Mir.Ty × UInt32)
  /-- `str::to_lowercase`. -/
  lowercase : String → String

/-! ## Types and names -/

/-- A function by its identifier, and one that nobody added as a function of nothing. -/
def functionAt (program : Program) (func : FuncId) : Function :=
  program.functions.getD func ⟨"", [], .unit, [], .of .unit⟩

def effectAt (program : Program) (effect : EffectId) : Effect :=
  program.effects.getD effect ⟨"", [], none⟩

mutual

/-- What an expression produces. -/
def tyIn (program : Program) (function : Function) : Expr → Ty
  | .unit => .unit
  | .bool _ => .bool
  | .int _ => .int
  | .str _ => .str
  | .local_ slot => function.locals.getD slot .unit
  | .hashed _ _ => .int
  | .unary .not _ => .bool
  | .unary .negate _ => .int
  | .binary op _ _ _ => op.resultTy
  | .call func _ _ => (functionAt program func).ret
  | .callIndirect _ _ ret _ => ret
  | .make layout _ _ => .aggregate layout
  | .field _ layout variant field =>
      (((program.layout layout).variants.getD variant ⟨"", []⟩).fields.getD field
        ⟨"", .unit⟩).ty
  | .discriminant _ _ => .int
  | .list element _ => .list element
  | .if_ _ _ _ ty => ty
  | .block block => tyOfBlock program function block
  | .runtime _ _ ret => ret
  | .elementAt _ _ element => element
  | .install _ _ _ _ ty => ty
  | .perform _ _ _ ret => ret
  | .host _ _ ret => ret

def tyOfBlock (program : Program) (function : Function) : Block → Ty
  | .mk _ value => tyIn program function value

end

/-- The name a helper goes by, for what the middle representation asks for by name. -/
def RuntimeName.helper : RuntimeName → Option Helper
  | .strEq => some .sameText
  | .strCmp => some .textOrder
  | .strConcat => some .joinedText
  | .strSplit => some .textPieces
  | .strJoin => some .piecesText
  | .strTrim => some .trimmedText
  | .strUpper => some .raisedText
  | .strLower => some .loweredText
  | .intToStr => some .numberText
  | .strToInt => some .textNumber
  | .listAt => some .listElement
  | .listPush => some .listExtended
  | .listRepeat => some .listFilled
  | .listRoom => some .listRoom
  | .listRoomFrom => some .listRoomFrom
  | .listAppend => some .listAppended
  | .strLen | .listNew | .listLen | .contractFailed => none

/-- The name of a runtime function. -/
def RuntimeName.text : RuntimeName → String
  | .strConcat => "deed_rt_str_concat"
  | .strEq => "deed_rt_str_eq"
  | .strCmp => "deed_rt_str_cmp"
  | .strLen => "deed_rt_str_len"
  | .strSplit => "deed_rt_str_split"
  | .strJoin => "deed_rt_str_join"
  | .strTrim => "deed_rt_str_trim"
  | .strUpper => "deed_rt_str_upper"
  | .strLower => "deed_rt_str_lower"
  | .strToInt => "deed_rt_str_to_int"
  | .intToStr => "deed_rt_int_to_str"
  | .listNew => "deed_rt_list_new"
  | .listPush => "deed_rt_list_push"
  | .listAt => "deed_rt_list_at"
  | .listLen => "deed_rt_list_len"
  | .listRepeat => "deed_rt_list_repeat"
  | .listRoom => "deed_rt_list_room"
  | .listRoomFrom => "deed_rt_list_room_from"
  | .listAppend => "deed_rt_list_append"
  | .contractFailed => "deed_rt_contract_failed"

/-- The name a reader of the module sees in a trap. -/
def helperName : Helper → String
  | .sameText => RuntimeName.text .strEq
  | .textOrder => RuntimeName.text .strCmp
  | .joinedText => RuntimeName.text .strConcat
  | .textSlice => "deed_rt_str_slice"
  | .textSearch => "deed_rt_str_find"
  | .numberText => RuntimeName.text .intToStr
  | .textNumber => RuntimeName.text .strToInt
  | .textPieces => RuntimeName.text .strSplit
  | .piecesText => RuntimeName.text .strJoin
  | .trimmedText => RuntimeName.text .strTrim
  | .raisedText => RuntimeName.text .strUpper
  | .loweredText => RuntimeName.text .strLower
  | .listElement => RuntimeName.text .listAt
  | .listExtended => RuntimeName.text .listPush
  | .listFilled => RuntimeName.text .listRepeat
  | .listRoom => RuntimeName.text .listRoom
  | .listRoomFrom => RuntimeName.text .listRoomFrom
  | .listAppended => RuntimeName.text .listAppend
  | .hashedText => "deed_rt_str_hash"
  | .grownMemory => "deed_rt_memory_fit"

/-- The reserved words, and how large a frame is. -/
def HANDLERS : Nat := 8

def FAILURE_CODE : Nat := 16

def FAILURE_MESSAGE : Nat := 24

def FRAME_BUMP : Nat := 32

def frameSize (operations : Nat) : Nat := (3 + operations) * WORD

def operationOffset (operation : Nat) : Nat := (3 + operation) * WORD

def elementOffset (index : Nat) : Nat := WORD + index * WORD

def ARITHMETIC_CODE : String := "DEED6007"

def ARITHMETIC_MESSAGE : String := "this arithmetic has no answer"

namespace Builder

variable (builder : Builder)

/-! ## What a builder is asked -/

def tyOf (expr : Expr) : Ty := tyIn builder.program builder.function expr

def fail {α : Type} (what : String) : Emit α :=
  Action.signal ⟨builder.function.name, what⟩

/-- What was asked for, or the complaint that it is not there. -/
def require {α : Type} (found : Option α) (what : String) : Emit α :=
  match found with
  | some found => pure found
  | none => builder.fail what

/-- Where each slot of the function ended up: one of type `Unit` takes no space, and
everything after it moves down. -/
def slot (local_ : Local) : Option UInt32 :=
  match builder.function.locals[local_]? with
  | none => none
  | some ty =>
      if (valType ty).isSome then
        some (.ofNat ((builder.function.locals.take local_).filterMap valType).length)
      else none

/-- How many parameters have a representation. -/
def params : Nat := (builder.function.params.filterMap valType).length

/-- Where the host call of a name is numbered. -/
def «import» (name : String) : Emit UInt32 :=
  let parts :=
    match splitOnce ['.'] name.toList with
    | some (namespace_, operation) => (String.ofList namespace_, String.ofList operation)
    | none => ("deed", name)
  builder.require
    ((builder.imports.findIdx? fun found =>
      found.module == "deed:" ++ parts.1 && found.name == parts.2).map UInt32.ofNat)
    ("a call to `" ++ name ++ "`, which nothing imported")

/-- Where the host answers an operation, if the host was asked for it. -/
def hostImport (effect : EffectId) (operation : Nat) : Option UInt32 :=
  let declared := effectAt builder.program effect
  let namespace_ :=
    match declared.interface with
    | some interface => interface
    | none => "deed:" ++ builder.lowercase declared.name
  (builder.imports.findIdx? fun found =>
    found.module == namespace_ &&
      found.name == declared.operations.getD operation "").map UInt32.ofNat

/-- Which interned signature this is. -/
def signature (wanted : FuncType) : Emit UInt32 :=
  builder.require
    ((builder.signatures.findIdx? fun found => found == wanted).map UInt32.ofNat)
    "a call to a shape nothing declares"

/-- The shape of a call that hands over one word before its arguments. -/
def shape (args : List Expr) (ret : Ty) : FuncType :=
  ⟨.i64 :: args.filterMap fun arg => valType (builder.tyOf arg), (valType ret).toList⟩

/-- A slot nothing else uses. -/
def temporary (ty : ValType) : Emit UInt32 := do
  let drafted ← Action.look id
  Action.change fun drafted => { drafted with extraLocals := drafted.extraLocals ++ [ty] }
  pure (.ofNat (builder.params + drafted.extraLocals.length))

/-- Where one of the functions this backend writes is numbered. -/
def helper (helper : Helper) : Emit UInt32 :=
  builder.require (builder.helpers helper)
    ("`" ++ helperName helper ++ "`, which nothing collected before the bodies were compiled")

def mark (span : Span) (role : SpanRole) (inner : Ins) : Emit (List Ins) := do
  let drafted ← Action.look id
  Action.change fun drafted => { drafted with sites := drafted.sites ++ [⟨span, role⟩] }
  pure [.marked (.ofNat drafted.sites.length) inner]

def place (text : String) : Emit UInt32 := do
  let drafted ← Action.look id
  let placed := drafted.strings.place text
  Action.change fun drafted => { drafted with strings := placed.2 }
  pure placed.1

/-! ## Arithmetic that is checked -/

/-- Leaves a code and a sentence where whatever runs the module reads them, and stops. -/
def failureInstructions (code message : String) : Emit (List Ins) := do
  let code ← place code
  let message ← place message
  pure [
    .i32Const (.ofNat FAILURE_CODE), .i64Const (.ofNat code.toNat), .i64Store 0,
    .i32Const (.ofNat FAILURE_MESSAGE), .i64Const (.ofNat message.toNat), .i64Store 0,
    .unreachable]

def trapOnTrue : Emit (List Ins) := do
  let failure ← failureInstructions ARITHMETIC_CODE ARITHMETIC_MESSAGE
  pure [.if_ none failure []]

/-- Negates what is in a slot. -/
def checkedNegate (value : UInt32) : Emit (List Ins) := do
  let trap ← trapOnTrue
  pure ([.localGet value, .i64Const Int64.minValue, .i64Eq] ++ trap ++
    [.i64Const 0, .localGet value, .i64Sub])

/-- Whether a slot and a constant compare as an instruction says, and so do two slots. -/
def bothCompare (slot : UInt32) (order : Ins) (left : UInt32) (other : Ins) (right : UInt32) :
    List Ins :=
  [.localGet slot, .i64Const 0, order, .localGet left, .localGet right, other, .i32And]

/-- A checked operation on what is in two slots. -/
def checkedBinary (op : BinaryOp) (left right : UInt32) : Emit (List Ins) :=
  match op with
  | .addInt => do
      let sum ← temporary builder .i64
      let trap ← trapOnTrue
      pure ([.localGet left, .localGet right, .i64Add, .localSet sum] ++
        bothCompare right .i64GtS sum .i64LtS left ++
        bothCompare right .i64LtS sum .i64GtS left ++ [.i32Or] ++ trap ++ [.localGet sum])
  | .subInt => do
      let diff ← temporary builder .i64
      let trap ← trapOnTrue
      pure ([.localGet left, .localGet right, .i64Sub, .localSet diff] ++
        bothCompare right .i64GtS diff .i64GtS left ++
        bothCompare right .i64LtS diff .i64LtS left ++ [.i32Or] ++ trap ++ [.localGet diff])
  | .mulInt => do
      let product ← temporary builder .i64
      let trap ← trapOnTrue
      let failure ← failureInstructions ARITHMETIC_CODE ARITHMETIC_MESSAGE
      pure ([.localGet left, .localGet right, .i64Mul, .localSet product,
          .localGet left, .i64Const (-1), .i64Eq,
          .localGet right, .i64Const Int64.minValue, .i64Eq, .i32And] ++ trap ++
        [.localGet left, .i64Eqz, .localGet right, .i64Eqz, .i32Or, .i32Eqz,
          .if_ none [.localGet product, .localGet left, .i64DivS, .localGet right, .i64Ne,
            .if_ none failure []] [],
          .localGet product])
  | .divInt => divided .i64DivS
  | .remInt => divided .i64RemS
  | _ => builder.fail "only checked integer operations reach here"
where
  divided (operation : Ins) : Emit (List Ins) := do
    let trap ← trapOnTrue
    pure ([.localGet right, .i64Eqz,
        .localGet left, .i64Const Int64.minValue, .i64Eq,
        .localGet right, .i64Const (-1), .i64Eq, .i32And, .i32Or] ++ trap ++
      [.localGet left, .localGet right, operation])

/-! ## Blocks of memory -/

/-- Reserves some bytes, and leaves the address in a slot. -/
def allocate (size : Nat) (into : UInt32) : Emit (List Ins) := do
  let grow ← builder.helper .grownMemory
  pure [
    .i32Const (.ofNat BUMP), .i64Load 0, .localSet into,
    .i32Const (.ofNat BUMP), .localGet into, .i64Const (.ofNat size), .i64Add, .i64Store 0,
    .call grow]

/-- Reserves some bytes of the frame stack, which end below the values. -/
def allocateFrame (size : Nat) (into : UInt32) : List Ins := [
  .i32Const (.ofNat FRAME_BUMP), .i64Load 0, .localSet into,
  .localGet into, .i64Const (.ofNat size), .i64Add, .i64Const (.ofNat HEAP_START), .i64GtS,
  .if_ none [.unreachable] [],
  .i32Const (.ofNat FRAME_BUMP), .localGet into, .i64Const (.ofNat size), .i64Add,
  .i64Store 0]

/-- Writes one word. -/
def write (address : UInt32) (offset : Nat) (value : List Ins) : List Ins :=
  [.localGet address, .i32WrapI64] ++ value ++ [.i64Store (.ofNat offset)]

/-- Widens a value of a type on the stack to a word. -/
def widened : Option ValType → List Ins
  | some .i32 => [.i64ExtendI32S]
  | _ => []

/-- Narrows a word on the stack to a value of a type. -/
def narrowed : Option ValType → List Ins
  | some .i32 => [.i32WrapI64]
  | _ => []

/-! ## Operators -/

/-- The instructions of an operator over two operands on the stack. -/
def operation (op : BinaryOp) (operand : Ty) : Emit (List Ins × Ins) :=
  match op with
  | .addInt => pure ([], .i64Add)
  | .subInt => pure ([], .i64Sub)
  | .mulInt => pure ([], .i64Mul)
  | .divInt => pure ([], .i64DivS)
  | .remInt => pure ([], .i64RemS)
  | .ltInt => pure ([], .i64LtS)
  | .leInt => pure ([], .i64LeS)
  | .gtInt => pure ([], .i64GtS)
  | .geInt => pure ([], .i64GeS)
  | .and => pure ([], .i32And)
  | .or => pure ([], .i32Or)
  | .concatStr => do
      let index ← builder.helper .joinedText
      pure ([], .call index)
  | .ltStr => ordered .i64LtS
  | .leStr => ordered .i64LeS
  | .gtStr => ordered .i64GtS
  | .geStr => ordered .i64GeS
  | .eq => equality .nop .i64Eq .i32Eq 1
  | .ne => equality .i32Eqz .i64Ne .i32Ne 0
where
  ordered (order : Ins) : Emit (List Ins × Ins) := do
    let index ← builder.helper .textOrder
    pure ([.call index, .i64Const 0], order)
  -- Which instruction it is depends on what is compared; two values of a type without a
  -- representation are equal.
  equality (after wide narrow : Ins) (bare : Int32) : Emit (List Ins × Ins) :=
    if operand = .str then do
      let index ← builder.helper .sameText
      pure ([.call index], after)
    else if Equality.walked operand then do
      let call ← builder.require (callOf builder.equals operand)
        "comparing two values of a shape nothing collected"
      pure ([call], after)
    else if operand.isBoxed then builder.fail "comparing two values that live in memory"
    else
      match valType operand with
      | some .i64 => pure ([], wide)
      | some .i32 => pure ([], narrow)
      | none => pure ([], .i32Const bare)

def binary (op : BinaryOp) (left : Expr) (span : Span) : Emit (List Ins) := do
  let (before, last) ← builder.operation op (builder.tyOf left)
  let marked ← mark span .trap last
  pure (before ++ marked)

/-- What a hash ends with, which depends on the shape. -/
def hashing (ty : Ty) : Emit (List Ins) :=
  if ty = .str then do
    let index ← builder.helper .hashedText
    pure [.call index]
  else if Hashing.walked ty then do
    let call ← builder.require (callOf builder.hashes ty) "hashing a shape nothing collected"
    pure [call]
  else if ty.isBoxed then builder.fail "hashing a value that lives in memory"
  else if (valType ty).isSome then pure [.i64Xor, .i64Const 1099511628211, .i64Mul]
  else pure []

/-- The helper that answers for the name of a runtime function. -/
def named (name : RuntimeName) : Emit Helper :=
  builder.require (RuntimeName.helper name)
    ("the runtime function `" ++ RuntimeName.text name ++ "`")

/-- Calls a helper for what stands on the stack. -/
def runtimeCall (helper : Helper) (ret : Ty) : Emit (List Ins) := do
  let index ← builder.helper helper
  pure (.call index :: narrowed (valType ret))

/-- Walks down from the innermost frame to one that answers for an effect; `exhausted` is
what happens where there is none. -/
def search (cursor : UInt32) (effect : EffectId) (exhausted : List Ins) : List Ins := [
  .localGet cursor, .i64Eqz, .if_ none exhausted [],
  .localGet cursor, .i32WrapI64, .i64Load (.ofNat WORD), .i64Const (.ofNat effect), .i64Eq,
  .brIf 1,
  .localGet cursor, .i32WrapI64, .i64Load 0, .localSet cursor, .br 0]

/-- The words of a frame, but for where its operations are. -/
def frameHeader (frame : UInt32) (effect : EffectId) (held : UInt32) : List Ins :=
  write frame 0 [.i32Const (.ofNat HANDLERS), .i64Load 0] ++
    write frame WORD [.i64Const (.ofNat effect)] ++
    write frame (2 * WORD) [.localGet held]

/-- Where the operations of a frame are. -/
def frameOperations (frame : UInt32) (operations : List FuncId) : List Ins :=
  seq (operations.zipIdx.map fun entry =>
    write frame (operationOffset entry.2) [.i64Const (.ofNat entry.1)])

/-- Writes one word at an offset from what is in a slot.  What has no representation is
neither stored nor evaluated. -/
def storeWord (address : UInt32) (offset : Nat) (ty : Ty) (value : Emit (List Ins)) :
    Emit (List Ins) :=
  match valType ty with
  | none => pure []
  | some width => do
      let code ← value
      pure (write address offset (code ++ widened (some width)))

/-- The layout, the variant and the number of fields of what an expression builds. -/
def made : Expr → Option (LayoutId × Nat × Nat)
  | .make layout variant fields => some (layout, variant, fields.length)
  | _ => none

/-- A handler's state, on the frame stack where it is written out. -/
def stateOnTheFrameStack (state : Expr) (into : UInt32)
    (stored value : Emit (List Ins)) : Emit (List Ins) :=
  match made state with
  | some (layout, variant, fields) => do
      let tagged := (builder.program.layout layout).isTagged
      let code ← stored
      pure (allocateFrame (aggregateSize tagged fields) into ++
        (if tagged then write into 0 [.i64Const (.ofNat variant)] else []) ++ code)
  | none => do
      let code ← value
      pure (code ++ [.localSet into])

/-! ## Bodies -/

mutual

def expr : Expr → Emit (List Ins)
  | .unit => pure []
  | .bool value => pure [.i32Const (if value then 1 else 0)]
  | .int value => pure [.i64Const value]
  | .str text => do
      let address ← place text
      pure [.i64Const (.ofNat address.toNat)]
  | .local_ slot => pure ((builder.slot slot).toList.map .localGet)
  | .unary .not operand => do
      let value ← expr operand
      pure (value ++ [.i32Eqz])
  | .unary .negate operand => do
      let slot ← builder.temporary .i64
      let value ← expr operand
      let negated ← checkedNegate slot
      pure (value ++ [.localSet slot] ++ negated)
  | .binary op left right span =>
      match op with
      | .addInt | .subInt | .mulInt | .divInt | .remInt => do
          let leftSlot ← builder.temporary .i64
          let rightSlot ← builder.temporary .i64
          let first ← expr left
          let second ← expr right
          let checked ← builder.checkedBinary op leftSlot rightSlot
          pure (first ++ [.localSet leftSlot] ++ second ++ [.localSet rightSlot] ++ checked)
      | _ => do
          let first ← expr left
          let second ← expr right
          let operation ← builder.binary op left span
          pure (first ++ second ++ operation)
  | .call func args span => do
      let values ← exprs args
      let call ← mark span .call (.call (.ofNat func + builder.shift))
      pure (values ++ call)
  | .callIndirect callee args ret span => do
      let typeIndex ← builder.signature (builder.shape args ret)
      let environment ← expr callee
      let values ← exprs args
      let code ← expr callee
      let call ← mark span .call (.callIndirect typeIndex)
      pure (environment ++ values ++ code ++ [.i32WrapI64, .i64Load 0, .i32WrapI64] ++ call)
  | .install effect state operations body _ => do
      let mark ← builder.temporary .i64
      let held ← builder.temporary .i64
      let stateCode ← builder.stateOnTheFrameStack state held (storeFields held state)
        (expr state)
      let frame ← builder.temporary .i64
      let bodyCode ← block body
      pure ([.i32Const (.ofNat FRAME_BUMP), .i64Load 0, .localSet mark] ++ stateCode ++
        allocateFrame (frameSize operations.length) frame ++
        frameHeader frame effect held ++ frameOperations frame operations ++
        [.i32Const (.ofNat HANDLERS), .localGet frame, .i64Store 0] ++ bodyCode ++
        [.i32Const (.ofNat HANDLERS), .localGet frame, .i32WrapI64, .i64Load 0, .i64Store 0,
          .i32Const (.ofNat FRAME_BUMP), .localGet mark, .i64Store 0])
  | .perform effect operation args ret => do
      let cursor ← builder.temporary .i64
      let exhausted ←
        match builder.hostImport effect operation with
        | none => pure [.unreachable]
        | some index => do
            let values ← exprs args
            pure (values ++ [.call index, .return_])
      let typeIndex ← builder.signature (builder.shape args ret)
      let values ← exprs args
      pure ([.i32Const (.ofNat HANDLERS), .i64Load 0, .localSet cursor,
          .block none [.loop none (search cursor effect exhausted)],
          .localGet cursor, .i32WrapI64, .i64Load (.ofNat (2 * WORD))] ++ values ++
        [.localGet cursor, .i32WrapI64, .i64Load (.ofNat (operationOffset operation)),
          .i32WrapI64, .callIndirect typeIndex])
  | .host name args _ => do
      let index ← builder.import name
      let values ← exprs args
      pure (values ++ [.call index])
  | .make layout variant fields => do
      let tagged := (builder.program.layout layout).isTagged
      let address ← builder.temporary .i64
      let reserved ← builder.allocate (aggregateSize tagged fields.length) address
      let stored ← storeWords address (fun index => (fieldOffset tagged index).toNat) 0 fields
      pure (reserved ++
        (if tagged then write address 0 [.i64Const (.ofNat variant)] else []) ++ stored ++
        [.localGet address])
  | .field value layout variant field => do
      let tagged := (builder.program.layout layout).isTagged
      let code ← expr value
      match valType (builder.tyOf (.field value layout variant field)) with
      | none => pure (code ++ [.drop])
      | some width =>
          pure (code ++ [.i32WrapI64, .i64Load (fieldOffset tagged field)] ++
            narrowed (some width))
  | .discriminant value layout => do
      let code ← expr value
      if (builder.program.layout layout).isTagged then
        pure (code ++ [.i32WrapI64, .i64Load 0])
      else pure (code ++ [.drop, .i64Const 0])
  | .list _ items => do
      let address ← builder.temporary .i64
      let reserved ← builder.allocate (listSize items.length) address
      let stored ← storeWords address elementOffset 0 items
      pure (reserved ++ write address 0 [.i64Const (.ofNat items.length)] ++ stored ++
        [.localGet address])
  | .if_ condition then_ otherwise ty => do
      let test ← expr condition
      let thenBody ← block then_
      let elseBody ← block otherwise
      pure (test ++ [.if_ (valType ty) thenBody elseBody])
  | .block inner => block inner
  | .hashed value ty => do
      let code ← expr value
      let last ← builder.hashing ty
      pure (.i64Const (.ofNat 0xcbf29ce484222325) :: code ++
        (if ty = .bool then [.i64ExtendI32S] else []) ++ last)
  | .runtime name args ret =>
      if name = .strLen ∨ name = .listLen then do
        let values ← firstOf args
        pure (values ++ [.i32WrapI64, .i64Load 0])
      else do
        let helper ← builder.named name
        let values ← widenedArgs args
        let call ← builder.runtimeCall helper ret
        pure (values ++ call)
  | .elementAt list index element => do
      let listCode ← expr list
      let indexCode ← expr index
      pure (listCode ++ indexCode ++
        [.i64Const 1, .i64Add, .i64Const (.ofNat WORD), .i64Mul, .i64Add, .i32WrapI64,
          .i64Load 0] ++ narrowed (valType element))

/-- Arguments, from the left. -/
def exprs : List Expr → Emit (List Ins)
  | [] => pure []
  | first :: rest => do
      let value ← expr first
      let values ← exprs rest
      pure (value ++ values)

/-- The only argument that is looked at. -/
def firstOf : List Expr → Emit (List Ins)
  | [] => builder.fail "an argument that is not there"
  | first :: _ => expr first

/-- Arguments of a helper, which speaks in words. -/
def widenedArgs : List Expr → Emit (List Ins)
  | [] => pure []
  | first :: rest => do
      let value ← expr first
      let values ← widenedArgs rest
      pure (value ++ widened (valType (builder.tyOf first)) ++ values)

/-- Writes the fields of a record or a choice, or the elements of a list. -/
def storeWords (address : UInt32) (offset : Nat → Nat) (index : Nat) :
    List Expr → Emit (List Ins)
  | [] => pure []
  | first :: rest => do
      let stored ← storeWord address (offset index) (builder.tyOf first) (expr first)
      let more ← storeWords address offset (index + 1) rest
      pure (stored ++ more)

/-- The fields of what an expression builds, into what is in a slot. -/
def storeFields (into : UInt32) : Expr → Emit (List Ins)
  | .make layout _ fields =>
      storeWords into
        (fun index => (fieldOffset (builder.program.layout layout).isTagged index).toNat) 0
        fields
  | _ => pure []

def block : Block → Emit (List Ins)
  | .mk body value => do
      let code ← stmts body
      let last ← expr value
      pure (code ++ last)

def stmt : Stmt → Emit (List Ins)
  | .assign local_ value => do
      let code ← expr value
      pure (code ++ (builder.slot local_).toList.map .localSet)
  | .discard value => do
      let code ← expr value
      pure (code ++ if (valType (builder.tyOf value)).isSome then [.drop] else [])
  | .fail code message span => do
      let failure ← failureInstructions code message
      let stop ← mark span .trap .unreachable
      pure (failure.dropLast ++ stop)
  | .return_ value => do
      let code ← expr value
      pure (code ++ [.return_])
  | .while_ condition body => do
      let test ← expr condition
      let turn ← stmts body
      pure [.block none [.loop none (test ++ [.i32Eqz, .brIf 1] ++ turn ++ [.br 0])]]
  | .setField object layout _ field value =>
      match valType (builder.tyOf value) with
      -- The expression still runs, since it may be a call.
      | none => expr value
      | some width => do
          let address ← expr object
          let code ← expr value
          pure (address ++ [.i32WrapI64] ++ code ++ widened (some width) ++
            [.i64Store (fieldOffset (builder.program.layout layout).isTagged field)])

def stmts : List Stmt → Emit (List Ins)
  | [] => pure []
  | first :: rest => do
      let code ← stmt first
      let more ← stmts rest
      pure (code ++ more)

end

end Builder

end Deed.Codegen
