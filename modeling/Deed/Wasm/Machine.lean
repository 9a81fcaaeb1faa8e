import Deed.Wasm.Encode

/-!
# Running a WebAssembly module

The meaning that the WebAssembly specification gives the instructions that the encoder
knows, over the module that it encodes.  What the specification leaves to an engine is a
parameter: how many pages of memory it gives, and what the functions of its host do.

The machine takes fuel for its loops and its calls, so that a run can be
computed.
-/

namespace Deed.Wasm

/-- A value on the stack. -/
inductive Value where
  | i32 (value : Int32)
  | i64 (value : Int64)
deriving DecidableEq, Repr

def Value.zero : ValType → Value
  | .i32 => .i32 0
  | .i64 => .i64 0

inductive Trap where
  | unreachable
  | divideByZero
  /-- A quotient that is no `i64`. -/
  | overflow
  /-- Reached past the end of memory, or of the table. -/
  | outOfBounds
  /-- An indirect call of a function of another type. -/
  | mismatch
  /-- The module asked the host for something, and there is no host. -/
  | needsHost
  /-- The host was asked for something and turned the call down. -/
  | refused
  /-- Something validation rules out: an empty stack, an index nobody declared. -/
  | invalid
deriving DecidableEq, Repr

/-! ## Memory -/

/-- How many bytes a page is. -/
def page : Nat := 65536

/-- Linear memory: bytes that are zero from the end of the last page on. -/
structure Memory where
  bytes : Nat → UInt8
  pages : Nat
  blank : ∀ address, pages * page ≤ address → bytes address = 0

/-- The number some bytes spell, the lowest first. -/
def littleEndian : List UInt8 → Nat
  | [] => 0
  | byte :: rest => byte.toNat + 256 * littleEndian rest

/-- The byte of a number at a position, counted from the lowest. -/
def byteOf (value position : Nat) : UInt8 := UInt8.ofNat (value / 256 ^ position % 256)

namespace Memory

def size (memory : Memory) : Nat := memory.pages * page

/-- Some bytes in a row. -/
def slice (memory : Memory) (address count : Nat) : List UInt8 :=
  (List.range count).map fun position => memory.bytes (address + position)

/-- The eight bytes at an address as a number. -/
def word (memory : Memory) (address : Nat) : Int64 :=
  Int64.ofNat (littleEndian (memory.slice address 8))

/-- Puts the lowest `count` bytes of a number in place. -/
def write (memory : Memory) (address count value : Nat)
    (inside : address + count ≤ memory.size) : Memory where
  bytes := fun at_ =>
    if address ≤ at_ ∧ at_ < address + count then byteOf value (at_ - address)
    else memory.bytes at_
  pages := memory.pages
  blank := by
    intro at_ beyond
    rw [if_neg fun within => Nat.not_lt.2 (inside.trans beyond) within.2]
    exact memory.blank at_ beyond

def loadByte (memory : Memory) (address : Nat) : Option UInt8 :=
  if address < memory.size then some (memory.bytes address) else none

def load (memory : Memory) (address : Nat) : Option Int64 :=
  if address + 8 ≤ memory.size then some (memory.word address) else none

def load32 (memory : Memory) (address : Nat) : Option Int32 :=
  if address + 4 ≤ memory.size then
    some (Int32.ofNat (littleEndian (memory.slice address 4)))
  else none

/-- Puts the lowest `count` bytes of a number in place, where there is a place. -/
def store (memory : Memory) (address count value : Nat) : Option Memory :=
  if inside : address + count ≤ memory.size then
    some (memory.write address count value inside)
  else none

/-- More pages at the end, all zero. -/
def grow (memory : Memory) (more : Nat) : Memory where
  bytes := memory.bytes
  pages := memory.pages + more
  blank := by
    intro address beyond
    apply memory.blank
    rw [Nat.add_mul] at beyond
    omega

end Memory

/-! ## One instruction -/

structure Machine where
  memory : Memory
  locals : List Value
  stack : List Value

/-- What a function of the host does with its arguments, the first one first, and with the
module's memory. -/
abbrev HostFn := List Value → Memory → Except Trap (Option Value × Memory)

/-- The module that runs, how many pages the engine gives it at most, and what the host
offers for an import.  Compiled code computes addresses in an `i32` and widens them with
their sign, so an engine that gives more than a gibibyte is not one of these. -/
structure Engine where
  module : Module
  ceiling : Nat
  small : ceiling ≤ 16384
  host : Import → Option HostFn := fun _ => none

/-- What a comparison leaves on the stack. -/
def boolean (holds : Prop) [Decidable holds] : Value := .i32 (if holds then 1 else 0)

/-- An address and a constant offset, which do not wrap round. -/
def effective (address : Int32) (offset : UInt32) : Nat :=
  address.toUInt32.toNat + offset.toNat

/-- The comparisons and the arithmetic: two operands, the right one on top. -/
def arithmetic : Ins → Value → Value → Except Trap Value
  | .i32Add, .i32 left, .i32 right => .ok (.i32 (left + right))
  | .i32Sub, .i32 left, .i32 right => .ok (.i32 (left - right))
  | .i32Mul, .i32 left, .i32 right => .ok (.i32 (left * right))
  | .i32And, .i32 left, .i32 right => .ok (.i32 (left &&& right))
  | .i32Or, .i32 left, .i32 right => .ok (.i32 (left ||| right))
  | .i32Eq, .i32 left, .i32 right => .ok (boolean (left = right))
  | .i32Ne, .i32 left, .i32 right => .ok (boolean (left ≠ right))
  | .i32LtS, .i32 left, .i32 right => .ok (boolean (left < right))
  | .i32LeS, .i32 left, .i32 right => .ok (boolean (left ≤ right))
  | .i32GtS, .i32 left, .i32 right => .ok (boolean (left > right))
  | .i32GeS, .i32 left, .i32 right => .ok (boolean (left ≥ right))
  | .i64Add, .i64 left, .i64 right => .ok (.i64 (left + right))
  | .i64Sub, .i64 left, .i64 right => .ok (.i64 (left - right))
  | .i64Mul, .i64 left, .i64 right => .ok (.i64 (left * right))
  | .i64Xor, .i64 left, .i64 right => .ok (.i64 (left ^^^ right))
  | .i64DivS, .i64 left, .i64 right =>
      if right = 0 then .error .divideByZero
      else if left = Int64.minValue ∧ right = -1 then .error .overflow
      else .ok (.i64 (left / right))
  | .i64RemS, .i64 left, .i64 right =>
      if right = 0 then .error .divideByZero else .ok (.i64 (left % right))
  | .i64Eq, .i64 left, .i64 right => .ok (boolean (left = right))
  | .i64Ne, .i64 left, .i64 right => .ok (boolean (left ≠ right))
  | .i64LtS, .i64 left, .i64 right => .ok (boolean (left < right))
  | .i64LeS, .i64 left, .i64 right => .ok (boolean (left ≤ right))
  | .i64GtS, .i64 left, .i64 right => .ok (boolean (left > right))
  | .i64GeS, .i64 left, .i64 right => .ok (boolean (left ≥ right))
  | _, _, _ => .error .invalid

/-- What an access to memory comes to. -/
def accessed {α β : Type} (found : Option α) (next : α → β) : Except Trap β :=
  match found with
  | some value => .ok (next value)
  | none => .error .outOfBounds

/-- An instruction that neither jumps nor calls. -/
def step (engine : Engine) (instruction : Ins) (machine : Machine) :
    Except Trap Machine :=
  match instruction, machine.stack with
  | .nop, _ => .ok machine
  | .unreachable, _ => .error .unreachable
  | .drop, _ :: stack => .ok { machine with stack }
  | .localGet index, stack =>
      match machine.locals[index.toNat]? with
      | some value => .ok { machine with stack := value :: stack }
      | none => .error .invalid
  | .localSet index, value :: stack =>
      if index.toNat < machine.locals.length then
        .ok { machine with locals := machine.locals.set index.toNat value, stack }
      else .error .invalid
  | .localTee index, value :: stack =>
      if index.toNat < machine.locals.length then
        .ok { machine with locals := machine.locals.set index.toNat value,
                           stack := value :: stack }
      else .error .invalid
  | .i32Const value, stack => .ok { machine with stack := .i32 value :: stack }
  | .i64Const value, stack => .ok { machine with stack := .i64 value :: stack }
  | .i32Eqz, .i32 value :: stack =>
      .ok { machine with stack := boolean (value = 0) :: stack }
  | .i64Eqz, .i64 value :: stack =>
      .ok { machine with stack := boolean (value = 0) :: stack }
  | .i32WrapI64, .i64 value :: stack =>
      .ok { machine with stack := .i32 value.toInt32 :: stack }
  | .i64ExtendI32S, .i32 value :: stack =>
      .ok { machine with stack := .i64 value.toInt64 :: stack }
  | .i32Load offset, .i32 address :: stack =>
      accessed (machine.memory.load32 (effective address offset)) fun value =>
        { machine with stack := .i32 value :: stack }
  | .i64Load offset, .i32 address :: stack =>
      accessed (machine.memory.load (effective address offset)) fun value =>
        { machine with stack := .i64 value :: stack }
  | .i32Load8U offset, .i32 address :: stack =>
      accessed (machine.memory.loadByte (effective address offset)) fun value =>
        { machine with stack := .i32 (Int32.ofNat value.toNat) :: stack }
  | .i32Store offset, .i32 value :: .i32 address :: stack =>
      accessed (machine.memory.store (effective address offset) 4 value.toUInt32.toNat)
        fun memory => { machine with memory, stack }
  | .i64Store offset, .i64 value :: .i32 address :: stack =>
      accessed (machine.memory.store (effective address offset) 8 value.toUInt64.toNat)
        fun memory => { machine with memory, stack }
  | .i32Store8 offset, .i32 value :: .i32 address :: stack =>
      accessed (machine.memory.store (effective address offset) 1 value.toUInt32.toNat)
        fun memory => { machine with memory, stack }
  | .memorySize, stack =>
      .ok { machine with stack := .i32 (Int32.ofNat machine.memory.pages) :: stack }
  | .memoryGrow, .i32 more :: stack =>
      if machine.memory.pages + more.toUInt32.toNat ≤ engine.ceiling then
        .ok { machine with
              memory := machine.memory.grow more.toUInt32.toNat
              stack := .i32 (Int32.ofNat machine.memory.pages) :: stack }
      else .ok { machine with stack := .i32 (-1) :: stack }
  | other, right :: left :: stack =>
      (arithmetic other left right).map fun value =>
        { machine with stack := value :: stack }
  | _, _ => .error .invalid

/-! ## Bodies -/

/-- What running some instructions ended with. -/
inductive Outcome where
  /-- Fell off the end. -/
  | normal (machine : Machine)
  /-- Branches out of this many enclosing blocks more. -/
  | branch (depth : Nat) (machine : Machine)
  | returned (machine : Machine)
  | trapped (trap : Trap)

/-- What is left of a block's stack for the code around it. -/
def Machine.leave (machine : Machine) (result : Option ValType) (outer : List Value) :
    Machine :=
  { machine with stack := machine.stack.take result.toList.length ++ outer }

/-- How a block ends, out of how its body did. -/
def Outcome.leave (result : Option ValType) (outer : List Value) : Outcome → Outcome
  | .normal machine => .normal (machine.leave result outer)
  | .branch 0 machine => .normal (machine.leave result outer)
  | .branch (depth + 1) machine => .branch depth machine
  | other => other

/-- A function that the module defines, with its signature; what it imports is numbered
first. -/
def Module.function (module : Module) (index : Nat) : Except Trap (FuncType × Func) :=
  if index < module.imports.length then .error .needsHost
  else
    match module.funcs[index - module.imports.length]? with
    | none => .error .invalid
    | some func =>
        match module.types[func.typeIndex.toNat]? with
        | none => .error .invalid
        | some signature => .ok (signature, func)

/-- The machine a function starts with: its arguments, and its locals at zero. -/
def Machine.enter (machine : Machine) (signature : FuncType) (func : Func) : Machine :=
  { machine with
    locals := (machine.stack.take signature.params.length).reverse ++
      func.locals.map Value.zero
    stack := [] }

/-- What a caller goes on with when a function has ended. -/
def Machine.resume (caller callee : Machine) (signature : FuncType) : Machine :=
  { caller with
    memory := callee.memory
    stack := callee.stack.take signature.results.length ++
      caller.stack.drop signature.params.length }

/-- What a caller goes on with, out of how the function's body ended. -/
def Outcome.answer (signature : FuncType) (caller : Machine) : Outcome → Outcome
  | .normal callee => .normal (caller.resume callee signature)
  | .returned callee => .normal (caller.resume callee signature)
  | .branch _ callee => .normal (caller.resume callee signature)
  | .trapped trap => .trapped trap

/-- The signature of a function, by its index; what the module imports is numbered first. -/
def Module.signature (module : Module) (index : Nat) : Option FuncType :=
  (module.imports.map (·.typeIndex) ++ module.funcs.map (·.typeIndex))[index]?.bind
    fun typeIndex => module.types[typeIndex.toNat]?

/-- The function an indirect call reaches, which has to be of the type it is called at. -/
def Module.reached (module : Module) (slot : Int32) (ty : UInt32) : Except Trap Nat :=
  match module.table[slot.toUInt32.toNat]? with
  | none => .error .outOfBounds
  | some index =>
      if module.signature index.toNat = module.types[ty.toNat]? then .ok index.toNat
      else .error .mismatch

/-- What a call of an imported function comes to, where the index is one of those. -/
def Engine.imported (engine : Engine) (index : Nat) (machine : Machine) :
    Option (Except Trap Machine) :=
  engine.module.imports[index]?.map fun import_ =>
    match engine.host import_, engine.module.types[import_.typeIndex.toNat]? with
    | some answer, some signature =>
        (answer (machine.stack.take signature.params.length).reverse machine.memory).map
          fun (value, memory) =>
            { machine with
              memory
              stack := value.toList ++ machine.stack.drop signature.params.length }
    | _, _ => .error .needsHost

/-- The rest of the code, which runs when the machine fell off the end of this. -/
def Outcome.andThen (outcome : Outcome) (next : Machine → Option Outcome) :
    Option Outcome :=
  match outcome with
  | .normal machine => next machine
  | .branch depth machine => some (.branch depth machine)
  | .returned machine => some (.returned machine)
  | .trapped trap => some (.trapped trap)

/-- What follows the body of a loop: the loop again when it branched there. -/
def Outcome.again (outcome : Outcome) (result : Option ValType) (stack : List Value)
    (loop next : Machine → Option Outcome) : Option Outcome :=
  match outcome with
  | .branch 0 machine => loop { machine with stack }
  | other => (other.leave result stack).andThen next

/-- Goes on after an instruction that neither jumps nor calls, or stops with its trap. -/
def proceed (stepped : Except Trap Machine) (next : Machine → Option Outcome) :
    Option Outcome :=
  match stepped with
  | .ok machine => next machine
  | .error trap => some (.trapped trap)

/-- Calls a function of the module, or stops where there is none. -/
def enter (found : Except Trap (FuncType × Func)) (machine : Machine)
    (run : List Ins → Machine → Option Outcome) (next : Machine → Option Outcome) :
    Option Outcome :=
  match found with
  | .ok (signature, func) =>
      (run func.body (machine.enter signature func)).bind fun outcome =>
        (outcome.answer signature machine).andThen next
  | .error trap => some (.trapped trap)

/-- Calls a function by its index, the host's or the module's. -/
def invoke (engine : Engine) (index : Nat) (machine : Machine)
    (run : List Ins → Machine → Option Outcome) (next : Machine → Option Outcome) :
    Option Outcome :=
  match engine.imported index machine with
  | some answered => proceed answered next
  | none => enter (engine.module.function index) machine run next

/-- One more round of the machine, where `run` is what the rounds after it do. -/
def round (engine : Engine) (run : List Ins → Machine → Option Outcome) :
    List Ins → Machine → Option Outcome
  | [], machine => some (.normal machine)
  | .marked _ inner :: rest, machine => run (inner :: rest) machine
  | .block result body :: rest, machine =>
      (run body { machine with stack := [] }).bind fun outcome =>
        (outcome.leave result machine.stack).andThen (run rest)
  | .loop result body :: rest, machine =>
      (run body { machine with stack := [] }).bind fun outcome =>
        outcome.again result machine.stack (run (.loop result body :: rest)) (run rest)
  | .if_ result then_ otherwise :: rest, ⟨memory, locals, .i32 condition :: stack⟩ =>
      (run (if condition ≠ 0 then then_ else otherwise) ⟨memory, locals, []⟩).bind
        fun outcome => (outcome.leave result stack).andThen (run rest)
  | .br depth :: _, machine => some (.branch depth.toNat machine)
  | .brIf depth :: rest, ⟨memory, locals, .i32 condition :: stack⟩ =>
      if condition ≠ 0 then some (.branch depth.toNat ⟨memory, locals, stack⟩)
      else run rest ⟨memory, locals, stack⟩
  | .return_ :: _, machine => some (.returned machine)
  | .call index :: rest, machine =>
      invoke engine index.toNat machine run (run rest)
  | .callIndirect ty :: rest, ⟨memory, locals, .i32 slot :: stack⟩ =>
      match engine.module.reached slot ty with
      | .ok index => invoke engine index ⟨memory, locals, stack⟩ run (run rest)
      | .error trap => some (.trapped trap)
  | plain :: rest, machine => proceed (step engine plain machine) (run rest)

/-- Runs some instructions, or answers nothing when the fuel is not enough. -/
def exec (engine : Engine) : Nat → List Ins → Machine → Option Outcome
  | 0, _, _ => none
  | fuel + 1, body, machine => round engine (exec engine fuel) body machine

end Deed.Wasm
