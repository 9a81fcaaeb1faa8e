import Deed.Wasm.Encode

/-!
# Validating a module

`crates/deed-codegen/src/validate.rs`: the specified validation algorithm, a value stack
and a control stack, run once over every function of a module.  The top of a stack and the
innermost frame come first here.
-/

namespace Deed.Wasm

/-- How a check ends without passing: the module is not valid, or the checker's own
expectation was not met. -/
inductive Stop where
  | invalid (why : String)
  | panicked (expected : String)
deriving DecidableEq, Repr

abbrev Check : Type → Type := Except Stop

/-- One operand: a real type, or the placeholder standing for whatever type would make
this valid. -/
inductive Slot where
  | val (ty : ValType)
  | unknown
deriving DecidableEq, Repr

/-- One block, loop, if-branch, or the function body itself. -/
structure Frame where
  /-- What a branch to this frame's label must find on the stack. -/
  labelTypes : List ValType
  /-- What falling off the end of this frame leaves on the stack. -/
  endTypes : List ValType
  height : Nat
  unreachable : Bool
deriving DecidableEq, Repr

structure Checker where
  stack : List Slot
  frames : List Frame
deriving DecidableEq, Repr

/-- How a type is printed in a message. -/
def ValType.debug : ValType → String
  | .i32 => "I32"
  | .i64 => "I64"

namespace Checker

def push (ty : ValType) (checker : Checker) : Checker :=
  { checker with stack := .val ty :: checker.stack }

/-- The innermost frame. -/
def last (checker : Checker) : Check Frame :=
  match checker.frames with
  | frame :: _ => .ok frame
  | [] => .error (.panicked "a frame while a body is checked")

def pop (checker : Checker) : Check (Slot × Checker) := do
  let frame ← checker.last
  if checker.stack.length = frame.height then
    if frame.unreachable then pure (.unknown, checker)
    else throw (.invalid "an instruction wants a value this block does not have")
  else
    match checker.stack with
    | slot :: stack => pure (slot, { checker with stack })
    | [] => throw (.panicked "checked above the frame's height")

def popExpect (expected : ValType) (checker : Checker) : Check Checker := do
  let (slot, checker) ← checker.pop
  match slot with
  | .unknown => pure checker
  | .val found =>
      if found = expected then pure checker
      else throw (.invalid ("expected " ++ expected.debug ++ " on the stack but found " ++
        found.debug))

/-- Pops some types, the last of them first. -/
def popAll (types : List ValType) (checker : Checker) : Check Checker :=
  types.reverse.foldlM (fun checker ty => checker.popExpect ty) checker

/-- Pushes some types, the first of them first. -/
def pushAll (types : List ValType) (checker : Checker) : Checker :=
  types.foldl (fun checker ty => checker.push ty) checker

def pushFrame (labelTypes endTypes : List ValType) (checker : Checker) : Checker :=
  { checker with
    frames := ⟨labelTypes, endTypes, checker.stack.length, false⟩ :: checker.frames }

/-- Checks that the frame's `endTypes` are on top of the stack, and leaves the stack as it
was under them once the frame is gone. -/
def popFrame (checker : Checker) : Check (List ValType × Checker) := do
  let frame ← checker.last
  let endTypes := frame.endTypes
  let checker ← checker.popAll endTypes
  let frame ← checker.last
  if checker.stack.length = frame.height then
    pure (endTypes, { checker with frames := checker.frames.tail })
  else
    throw (.invalid "a block leaves values behind that it did not declare as its result")

/-- The rest of the block cannot be reached: anything may be on the stack above the frame's
height. -/
def setUnreachable (checker : Checker) : Check Checker :=
  match checker.frames with
  | frame :: outer =>
      .ok
        { stack := checker.stack.drop (checker.stack.length - frame.height)
          frames := { frame with unreachable := true } :: outer }
  | [] => .error (.panicked "a frame while a body is checked")

def branchTarget (depth : UInt32) (checker : Checker) : Check (List ValType) :=
  match checker.frames[depth.toNat]? with
  | some frame => .ok frame.labelTypes
  | none =>
      .error (.invalid ("branches " ++ toString depth.toNat ++ " blocks out with no block there"))

end Checker

variable (module : Module) (locals : List ValType)

def localType (index : UInt32) : Check ValType :=
  match locals[index.toNat]? with
  | some ty => .ok ty
  | none =>
      .error (.invalid
        ("names a local (" ++ toString index.toNat ++ ") this function does not have"))

/-- A type of the module's, by its index. -/
def Module.typeNamed (typeIndex : UInt32) : Check FuncType :=
  match module.types[typeIndex.toNat]? with
  | some ty => .ok ty
  | none =>
      .error (.invalid
        ("names a type index (" ++ toString typeIndex.toNat ++ ") the module does not have"))

def Module.funcType (index : UInt32) : Check FuncType :=
  match module.imports[index.toNat]? with
  | some import_ => module.typeNamed import_.typeIndex
  | none =>
      match module.funcs[index.toNat - module.imports.length]? with
      | some func => module.typeNamed func.typeIndex
      | none =>
          .error (.invalid ("calls a function index (" ++ toString index.toNat ++
            ") the module does not have"))

def Module.requireMemory : Check Unit :=
  if module.memoryPages.isNone then
    .error (.invalid "loads or stores, but the module declares no memory")
  else .ok ()

/-- Pops what an instruction takes, and pushes what it leaves. -/
def Checker.takes (operands : List ValType) (results : List ValType) (checker : Checker) :
    Check Checker := do
  let checker ← checker.popAll operands
  pure (checker.pushAll results)

/-- An instruction with no body in it. -/
def Checker.plain (instruction : Ins) (checker : Checker) : Check Checker := do
  match instruction with
  | .unreachable => checker.setUnreachable
  | .br depth =>
      let target ← checker.branchTarget depth
      let checker ← checker.popAll target
      checker.setUnreachable
  | .brIf depth =>
      let checker ← checker.popExpect .i32
      let target ← checker.branchTarget depth
      checker.takes target target
  | .return_ =>
      match checker.frames.getLast? with
      | some frame =>
          let checker ← checker.popAll frame.endTypes
          checker.setUnreachable
      | none => throw (.panicked "a frame while a body is checked")
  | .call index =>
      let ty ← module.funcType index
      checker.takes ty.params ty.results
  | .callIndirect typeIndex =>
      let checker ← checker.popExpect .i32
      match module.types[typeIndex.toNat]? with
      | some ty => checker.takes ty.params ty.results
      | none =>
          throw (.invalid ("call_indirect names a type index (" ++ toString typeIndex.toNat ++
            ") the module does not have"))
  | .drop =>
      let (_, checker) ← checker.pop
      pure checker
  | .localGet index =>
      let ty ← localType locals index
      pure (checker.push ty)
  | .localSet index =>
      let ty ← localType locals index
      checker.popExpect ty
  | .localTee index =>
      let ty ← localType locals index
      checker.takes [ty] [ty]
  | .i32Const _ => pure (checker.push .i32)
  | .i64Const _ => pure (checker.push .i64)
  | .i32Add | .i32Sub | .i32Mul | .i32And | .i32Or => checker.takes [.i32, .i32] [.i32]
  | .i32Eq | .i32Ne | .i32LtS | .i32LeS | .i32GtS | .i32GeS =>
      checker.takes [.i32, .i32] [.i32]
  | .i32Eqz => checker.takes [.i32] [.i32]
  | .i64Add | .i64Sub | .i64Mul | .i64Xor | .i64DivS | .i64RemS =>
      checker.takes [.i64, .i64] [.i64]
  | .i64Eq | .i64Ne | .i64LtS | .i64LeS | .i64GtS | .i64GeS =>
      checker.takes [.i64, .i64] [.i32]
  | .i64Eqz => checker.takes [.i64] [.i32]
  | .i32WrapI64 => checker.takes [.i64] [.i32]
  | .i64ExtendI32S => checker.takes [.i32] [.i64]
  | .i32Load _ | .i32Load8U _ =>
      module.requireMemory
      checker.takes [.i32] [.i32]
  | .i64Load _ =>
      module.requireMemory
      checker.takes [.i32] [.i64]
  | .i32Store _ | .i32Store8 _ =>
      module.requireMemory
      checker.takes [.i32, .i32] []
  | .i64Store _ =>
      module.requireMemory
      checker.takes [.i32, .i64] []
  | .memorySize =>
      module.requireMemory
      pure (checker.push .i32)
  | .memoryGrow =>
      module.requireMemory
      checker.takes [.i32] [.i32]
  | _ => pure checker

mutual

def Checker.instruction : Ins → Checker → Check Checker
  | .marked _ inner, checker => Checker.instruction inner checker
  | .block result body, checker => do
      let checker ← Checker.instructions body
        (checker.pushFrame result.toList result.toList)
      let (types, checker) ← checker.popFrame
      pure (checker.pushAll types)
  | .loop result body, checker => do
      let checker ← Checker.instructions body (checker.pushFrame [] result.toList)
      let (types, checker) ← checker.popFrame
      pure (checker.pushAll types)
  | .if_ result then_ otherwise, checker => do
      let checker ← checker.popExpect .i32
      if !result.toList.isEmpty && otherwise.isEmpty then
        throw (.invalid ("an \x60if\x60 with a result needs an \x60else\x60: falling " ++
          "through the implicit empty one would not produce it"))
      let checker ← Checker.instructions then_
        (checker.pushFrame result.toList result.toList)
      let (produced, checker) ← checker.popFrame
      let checker ← Checker.instructions otherwise
        (checker.pushFrame result.toList result.toList)
      let (_, checker) ← checker.popFrame
      pure (checker.pushAll produced)
  | plain, checker => checker.plain module locals plain

/-- The instructions of a body, one after the other. -/
def Checker.instructions : List Ins → Checker → Check Checker
  | [], checker => pure checker
  | instruction :: rest, checker => do
      let checker ← Checker.instruction instruction checker
      Checker.instructions rest checker

end

/-- What a function goes by in a message. -/
def Module.nameOf (at_ : Nat) : String :=
  match module.names.find? fun one => one.1.toNat = module.imports.length + at_ with
  | some (_, name) => name
  | none => "a function with no name"

/-- A failure with the name of the function that it is in. -/
def Module.named {α : Type} (at_ : Nat) : Check α → Check α
  | .error (.invalid why) =>
      .error (.invalid ("in \x60" ++ module.nameOf at_ ++ "\x60: " ++ why))
  | other => other

/-- Checks the body of a function against its signature. -/
def Func.check (signature : FuncType) (func : Func) (at_ : Nat) : Check Unit := do
  let checker := (⟨[], []⟩ : Checker).pushFrame signature.results signature.results
  let checker ← module.named at_
    (Checker.instructions module (signature.params ++ func.locals) func.body checker)
  let _ ← module.named at_ checker.popFrame
  pure ()

/-- A function of the module: its signature is there, and its body keeps to it. -/
def Module.checkFunc (at_ : Nat) (func : Func) : Check Unit :=
  match module.types[func.typeIndex.toNat]? with
  | some signature => func.check module signature at_
  | none =>
      .error (.invalid ("a function names a type index (" ++ toString func.typeIndex.toNat ++
        ") the module does not have"))

def Module.checkEntry (index : UInt32) : Check Unit :=
  if module.imports.length + module.funcs.length ≤ index.toNat then
    .error (.invalid ("the table names a function index (" ++ toString index.toNat ++
      ") the module does not have"))
  else .ok ()

/-- Checks every function against the module's own declared types, the way loading the
module for real would. -/
def Module.validate : Check Unit := do
  module.funcs.zipIdx.forM fun one => module.checkFunc one.2 one.1
  module.table.forM module.checkEntry

end Deed.Wasm
