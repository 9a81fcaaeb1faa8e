import Mathlib

/-!
# Encoding a WebAssembly module

The encoder of `crates/deed-codegen/src/wasm.rs`.  A function that appends to a
byte vector in the source answers the bytes it appends here; everything else is
translated step by step, the two loops that write LEB128 included.
-/

namespace Deed.Wasm

/-- A WebAssembly value type. -/
inductive ValType where
  | i32 | i64
deriving DecidableEq, Repr

def ValType.byte : ValType → UInt8
  | .i32 => 0x7f
  | .i64 => 0x7e

/-! ## Numbers and names -/

/-- What is left of a number after seven bits is smaller, while there is any. -/
theorem toNat_shiftRight_lt {value : UInt32} (more : value >>> 7 ≠ 0) :
    (value >>> 7).toNat < value.toNat := by
  have shifted : (value >>> 7).toNat = value.toNat / 128 := by
    rw [UInt32.toNat_shiftRight]
    exact Nat.shiftRight_eq_div_pow _ 7
  have positive : (value >>> 7).toNat ≠ 0 := by
    intro zero
    exact more (UInt32.toNat_inj.1 zero)
  omega

/-- Unsigned LEB128, which is how WebAssembly spells every length and index. -/
def writeU32 (value : UInt32) : List UInt8 :=
  let byte := (value &&& 0x7f).toUInt8
  if value >>> 7 ≠ 0 then (byte ||| 0x80) :: writeU32 (value >>> 7)
  else [byte]
termination_by value.toNat
decreasing_by exact toNat_shiftRight_lt (by assumption)

/-- An arithmetic shift by seven divides by the seventh power of two, rounding down. -/
theorem toInt_shiftRight_seven (value : Int64) :
    (value >>> 7).toInt = value.toInt / 128 := by
  have seven : ((7 : Int64).toBitVec.smod 64) = 7#64 := by decide
  have shifted : (value >>> 7).toInt = value.toInt >>> (7 : Nat) := by
    rw [← Int64.toInt_toBitVec, Int64.toBitVec_shiftRight, seven]
    exact BitVec.toInt_sshiftRight
  rw [shifted, Int.shiftRight_eq_div_pow]
  rfl

theorem natAbs_shiftRight_lt {value : Int64} (nonzero : value ≠ 0)
    (notLast : value ≠ -1) :
    (value >>> 7).toInt.natAbs < value.toInt.natAbs := by
  have zero : value.toInt ≠ 0 := fun same => nonzero (Int64.toInt_inj.1 same)
  have one : value.toInt ≠ -1 := fun same => notLast (Int64.toInt_inj.1 same)
  rw [toInt_shiftRight_seven]
  omega

/-- Signed LEB128, which is how it spells a constant. -/
def writeI64 (value : Int64) : List UInt8 :=
  let byte := (value &&& 0x7f).toUInt64.toUInt8
  let signBitSet := byte &&& 0x40 ≠ 0
  if (value >>> 7 = 0 ∧ ¬ signBitSet) ∨ (value >>> 7 = -1 ∧ signBitSet) then
    [byte]
  else (byte ||| 0x80) :: writeI64 (value >>> 7)
termination_by value.toInt.natAbs
decreasing_by
  rename_i more
  apply natAbs_shiftRight_lt
  · rintro rfl
    exact more (by decide)
  · rintro rfl
    exact more (by decide)

def writeI32 (value : Int32) : List UInt8 := writeI64 value.toInt64

/-- A byte-for-byte name, length first. -/
def writeName (name : String) : List UInt8 :=
  writeU32 (UInt32.ofNat name.toUTF8.data.toList.length) ++ name.toUTF8.data.toList

/-! ## Instructions -/

/-- The instructions the backend emits. -/
inductive Ins where
  /-- A marker kept in memory, but stripped when encoded. -/
  | marked (site : UInt32) (inner : Ins)
  | unreachable
  | nop
  /-- A block that produces one value, or none when `result` is `none`. -/
  | block (result : Option ValType) (body : List Ins)
  | loop (result : Option ValType) (body : List Ins)
  | if_ (result : Option ValType) (then_ otherwise : List Ins)
  /-- Jump out of the nth enclosing block, counting from the innermost. -/
  | br (depth : UInt32)
  | brIf (depth : UInt32)
  | return_
  | call (index : UInt32)
  /-- Through the table, by type index.  The callee index is on the stack. -/
  | callIndirect (ty : UInt32)
  | drop
  | localGet (index : UInt32)
  | localSet (index : UInt32)
  | localTee (index : UInt32)
  | i32Const (value : Int32)
  | i64Const (value : Int64)
  | i32Add | i32Sub | i32Mul | i32Eq | i32Ne | i32LtS | i32LeS | i32GtS | i32GeS
  | i32And | i32Or | i32Eqz
  | i64Add | i64Sub | i64Mul | i64Xor | i64DivS | i64RemS
  | i64Eq | i64Ne | i64LtS | i64LeS | i64GtS | i64GeS
  /-- Narrow to a boolean-shaped i32, which is what comparisons produce. -/
  | i64Eqz
  | i32WrapI64
  | i64ExtendI32S
  /-- Load and store go through the one memory the backend declares. -/
  | i32Load (offset : UInt32)
  | i64Load (offset : UInt32)
  | i32Store (offset : UInt32)
  | i64Store (offset : UInt32)
  /-- One byte, which is what a string is made of. -/
  | i32Load8U (offset : UInt32)
  | i32Store8 (offset : UInt32)
  /-- How many 64KiB pages the memory has now. -/
  | memorySize
  /-- Ask for this many more pages, answering with the count before the growth, or
  `-1` when the engine would not. -/
  | memoryGrow
deriving Repr

def writeBlockType : Option ValType → UInt8
  | none => 0x40
  | some ty => ty.byte

mutual

def Ins.write : Ins → List UInt8
  | .marked _ inner => inner.write
  | .unreachable => [0x00]
  | .nop => [0x01]
  | .block result body => 0x02 :: writeBlockType result :: (Ins.writeAll body ++ [0x0b])
  | .loop result body => 0x03 :: writeBlockType result :: (Ins.writeAll body ++ [0x0b])
  | .if_ result then_ otherwise =>
      0x04 :: writeBlockType result :: (Ins.writeAll then_ ++
        ((if otherwise.isEmpty then [] else 0x05 :: Ins.writeAll otherwise) ++ [0x0b]))
  | .br depth => 0x0c :: writeU32 depth
  | .brIf depth => 0x0d :: writeU32 depth
  | .return_ => [0x0f]
  | .call index => 0x10 :: writeU32 index
  | .callIndirect ty => 0x11 :: (writeU32 ty ++ writeU32 0)
  | .drop => [0x1a]
  | .localGet index => 0x20 :: writeU32 index
  | .localSet index => 0x21 :: writeU32 index
  | .localTee index => 0x22 :: writeU32 index
  | .i32Load offset => 0x28 :: (writeU32 2 ++ writeU32 offset)
  | .i64Load offset => 0x29 :: (writeU32 3 ++ writeU32 offset)
  | .i32Store offset => 0x36 :: (writeU32 2 ++ writeU32 offset)
  | .i64Store offset => 0x37 :: (writeU32 3 ++ writeU32 offset)
  | .i32Load8U offset => 0x2d :: (writeU32 0 ++ writeU32 offset)
  | .i32Store8 offset => 0x3a :: (writeU32 0 ++ writeU32 offset)
  | .memorySize => [0x3f, 0x00]
  | .memoryGrow => [0x40, 0x00]
  | .i32Const value => 0x41 :: writeI32 value
  | .i64Const value => 0x42 :: writeI64 value
  | .i32Eqz => [0x45]
  | .i32Eq => [0x46]
  | .i32Ne => [0x47]
  | .i32LtS => [0x48]
  | .i32GtS => [0x4a]
  | .i32LeS => [0x4c]
  | .i32GeS => [0x4e]
  | .i64Eqz => [0x50]
  | .i64Eq => [0x51]
  | .i64Ne => [0x52]
  | .i64LtS => [0x53]
  | .i64GtS => [0x55]
  | .i64LeS => [0x57]
  | .i64GeS => [0x59]
  | .i32Add => [0x6a]
  | .i32Sub => [0x6b]
  | .i32Mul => [0x6c]
  | .i32And => [0x71]
  | .i32Or => [0x72]
  | .i64Add => [0x7c]
  | .i64Sub => [0x7d]
  | .i64Mul => [0x7e]
  | .i64Xor => [0x85]
  | .i64DivS => [0x7f]
  | .i64RemS => [0x81]
  | .i32WrapI64 => [0xa7]
  | .i64ExtendI32S => [0xac]

/-- The instructions of a body, one after the other. -/
def Ins.writeAll : List Ins → List UInt8
  | [] => []
  | instruction :: rest => instruction.write ++ Ins.writeAll rest

end

/-! ## Modules -/

/-- One function's signature, which WebAssembly stores once and shares. -/
structure FuncType where
  params : List ValType
  results : List ValType
deriving DecidableEq, Repr

structure Func where
  typeIndex : UInt32
  /-- Slots beyond the parameters, which the type already named. -/
  locals : List ValType
  body : List Ins
deriving Repr

/-- Something the module needs from whoever runs it. -/
structure Import where
  /-- Which namespace the host publishes it under. -/
  module : String
  name : String
  typeIndex : UInt32
deriving DecidableEq, Repr

/-- A module under construction. -/
structure Module where
  types : List FuncType
  /-- What the host has to supply, numbered before every function of the module. -/
  imports : List Import
  funcs : List Func
  /-- Name and function index, for everything callable from outside. -/
  exports : List (String × UInt32)
  /-- How many 64KiB pages of memory the module wants, when it wants any. -/
  memoryPages : Option UInt32
  /-- What to export the memory under, when it should be exported at all. -/
  exportedMemory : Option String
  /-- Bytes placed in memory before anything runs, by offset. -/
  data : List (UInt32 × List UInt8)
  /-- Functions reachable through `call_indirect`, in table order. -/
  table : List UInt32
  /-- Debug names for functions, by function index. -/
  names : List (UInt32 × String)
deriving Repr

/-- Where one more local goes: into the last run when that has its type. -/
def pushLocal (runs : List (UInt32 × ValType)) (ty : ValType) :
    List (UInt32 × ValType) :=
  match runs.getLast? with
  | some (count, seen) =>
      if seen = ty then runs.dropLast ++ [(count + 1, seen)] else runs ++ [(1, ty)]
  | none => runs ++ [(1, ty)]

/-- Runs of the same type, which is how a function's locals are stored. -/
def compressLocals (locals : List ValType) : List (UInt32 × ValType) :=
  locals.foldl pushLocal []

/-- A count and then every element, which is the format's vector. -/
def writeVector {α : Type} (write : α → List UInt8) (elements : List α) : List UInt8 :=
  writeU32 (UInt32.ofNat elements.length) ++ elements.flatMap write

/-- Bytes with their number in front. -/
def writeSized (bytes : List UInt8) : List UInt8 :=
  writeU32 (UInt32.ofNat bytes.length) ++ bytes

def writeSection (id : UInt8) (body : List UInt8) : List UInt8 :=
  id :: writeSized body

def FuncType.write (ty : FuncType) : List UInt8 :=
  0x60 :: (writeVector (fun param => [ValType.byte param]) ty.params ++
    writeVector (fun result => [ValType.byte result]) ty.results)

def Import.write (import_ : Import) : List UInt8 :=
  writeName import_.module ++ (writeName import_.name ++
    (0x00 :: writeU32 import_.typeIndex))

/-- The body of a function without its length: runs of locals, then the code. -/
def Func.writeBody (func : Func) : List UInt8 :=
  writeVector (fun run : UInt32 × ValType => writeU32 run.1 ++ [run.2.byte])
      (compressLocals func.locals) ++
    (Ins.writeAll func.body ++ [0x0b])

def writeDataSegment (segment : UInt32 × List UInt8) : List UInt8 :=
  writeU32 0 ++ (0x41 :: (writeI32 segment.1.toInt32 ++ (0x0b :: writeSized segment.2)))

def writeExport (exported : String × UInt32) : List UInt8 :=
  writeName exported.1 ++ (0x00 :: writeU32 exported.2)

def writeExportedMemory (name : String) : List UInt8 :=
  writeName name ++ (0x02 :: writeU32 0)

def writeFunctionName (named : UInt32 × String) : List UInt8 :=
  writeU32 named.1 ++ writeName named.2

/-- The magic number `\0asm`, and the version as four bytes. -/
def header : List UInt8 := [0x00, 0x61, 0x73, 0x6d] ++ [0x01, 0x00, 0x00, 0x00]

namespace Module

def typeSection (module : Module) : List UInt8 :=
  writeVector FuncType.write module.types

def importSection (module : Module) : List UInt8 :=
  writeVector Import.write module.imports

def functionSection (module : Module) : List UInt8 :=
  writeVector (fun func : Func => writeU32 func.typeIndex) module.funcs

/-- A table of function references, exactly as big as what went in. -/
def tableSection (module : Module) : List UInt8 :=
  writeU32 1 ++ (0x70 :: 0x01 :: (writeU32 (UInt32.ofNat module.table.length) ++
    writeU32 (UInt32.ofNat module.table.length)))

def memorySection (pages : UInt32) : List UInt8 :=
  writeU32 1 ++ (0x00 :: writeU32 pages)

def exportSection (module : Module) : List UInt8 :=
  let memory := module.exportedMemory.toList
  writeU32 (UInt32.ofNat (module.exports.length + memory.length)) ++
    (module.exports.flatMap writeExport ++ memory.flatMap writeExportedMemory)

/-- The one segment that fills the table from its start. -/
def elementSection (module : Module) : List UInt8 :=
  writeU32 1 ++ (writeU32 0 ++ (0x41 :: (writeI32 0 ++
    (0x0b :: writeVector writeU32 module.table))))

def codeSection (module : Module) : List UInt8 :=
  writeVector (fun func : Func => writeSized func.writeBody) module.funcs

def dataSection (module : Module) : List UInt8 :=
  writeVector writeDataSegment module.data

/-- The names in the order of their function indices. -/
def sortedNames (module : Module) : List (UInt32 × String) :=
  module.names.mergeSort fun left right => left.1 ≤ right.1

/-- The custom section that names the functions: its own name, and then the one
subsection with their names. -/
def nameSection (module : Module) : List UInt8 :=
  writeName "name" ++
    (1 :: writeSized (writeVector writeFunctionName module.sortedNames))

def writeMemory (module : Module) : List UInt8 :=
  match module.memoryPages with
  | some pages => writeSection 5 (memorySection pages)
  | none => []

/-- The module as bytes, in the order the specification lays the sections out. -/
def encode (module : Module) : List UInt8 :=
  header ++
  (if module.types.isEmpty then [] else writeSection 1 module.typeSection) ++
  (if module.imports.isEmpty then [] else writeSection 2 module.importSection) ++
  (if module.funcs.isEmpty then [] else writeSection 3 module.functionSection) ++
  (if module.table.isEmpty then [] else writeSection 4 module.tableSection) ++
  module.writeMemory ++
  (if module.exports.isEmpty ∧ module.exportedMemory.isNone then []
    else writeSection 7 module.exportSection) ++
  (if module.table.isEmpty then [] else writeSection 9 module.elementSection) ++
  (if module.funcs.isEmpty then [] else writeSection 10 module.codeSection) ++
  (if module.data.isEmpty then [] else writeSection 11 module.dataSection) ++
  (if module.names.isEmpty then [] else writeSection 0 module.nameSection)

end Module

end Deed.Wasm
