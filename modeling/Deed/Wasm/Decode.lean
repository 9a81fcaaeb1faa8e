import Deed.Library.Leb128
import Deed.Wasm.Encode

/-!
# The WebAssembly binary grammar

Readers for the sections and opcodes that the encoder uses, written from the
binary format: a vector is a count and its elements, a section is its id and
its size, and a body is instructions up to the `end` that closes it.  Each
reader stands next to the lemma that it takes back what the encoder wrote.
-/

namespace Deed.Wasm

open Deed.Library

variable {α : Type}

/-! ## Numbers -/

theorem low_byte_u32 (value : UInt32) :
    (value &&& 0x7f).toUInt8.toNat = value.toNat % 128 := by
  have masked : value.toNat &&& (2 ^ 7 - 1) = value.toNat % 2 ^ 7 :=
    Nat.and_two_pow_sub_one_eq_mod _ _
  rw [UInt32.toNat_toUInt8, UInt32.toNat_and]
  show (value.toNat &&& (2 ^ 7 - 1)) % 256 = _
  rw [masked]
  omega

theorem toNat_toUInt64_mod (value : Int64) :
    (value.toUInt64.toNat : Int) % 128 = value.toInt % 128 := by
  have signed : value.toInt = if 2 * value.toUInt64.toNat < 2 ^ 64
      then (value.toUInt64.toNat : Int)
      else (value.toUInt64.toNat : Int) - 2 ^ 64 :=
    BitVec.toInt_eq_toNat_cond value.toBitVec
  rw [signed]
  split <;> omega

theorem low_byte_i64 (value : Int64) :
    (value &&& 0x7f).toUInt64.toUInt8.toNat = (value.toInt % 128).toNat := by
  have masked : value.toUInt64.toNat &&& (2 ^ 7 - 1) =
      value.toUInt64.toNat % 2 ^ 7 :=
    Nat.and_two_pow_sub_one_eq_mod _ _
  have bits : (value &&& 0x7f).toUInt64 = value.toUInt64 &&& 0x7f := rfl
  have wraps := toNat_toUInt64_mod value
  rw [UInt64.toNat_toUInt8, bits, UInt64.toNat_and]
  show (value.toUInt64.toNat &&& (2 ^ 7 - 1)) % 256 = _
  rw [masked]
  omega

/-- Setting the high bit of a group of seven adds it. -/
theorem or_high_bit {byte : UInt8} (small : byte.toNat < 128) :
    byte ||| 0x80 = UInt8.ofNat (byte.toNat + 128) := by
  have split_ : 2 ^ 7 * 1 + byte.toNat = 2 ^ 7 * 1 ||| byte.toNat :=
    Nat.two_pow_add_eq_or_of_lt small 1
  rw [← UInt8.toNat_inj, UInt8.toNat_or, UInt8.toNat_ofNat', Nat.or_comm]
  show 2 ^ 7 * 1 ||| byte.toNat = _
  rw [← split_]
  omega

/-- The sign bit of a group of seven says that the group is at least sixty-four. -/
theorem and_sign_bit {byte : UInt8} (small : byte.toNat < 128) :
    byte &&& 0x40 ≠ 0 ↔ 64 ≤ byte.toNat := by
  rw [ne_eq, ← UInt8.toNat_inj, UInt8.toNat_and]
  show ¬ (byte.toNat &&& 2 ^ 6 = 0) ↔ _
  rw [Nat.and_two_pow, Nat.testBit_eq_decide_div_mod_eq]
  by_cases high : 64 ≤ byte.toNat
  · have set : byte.toNat / 64 % 2 = 1 := by omega
    simp [set, high]
  · have clear : byte.toNat / 64 % 2 = 0 := by omega
    simp [clear, high]

/-- The loop of `writeU32` writes the shortest encoding. -/
theorem writeU32_eq (value : UInt32) : writeU32 value = Leb128.unsigned value.toNat := by
  induction size : value.toNat using Nat.strongRecOn generalizing value with
  | ind size ih =>
      have low := low_byte_u32 value
      have shifted : (value >>> 7).toNat = value.toNat / 128 := by
        rw [UInt32.toNat_shiftRight]
        exact Nat.shiftRight_eq_div_pow _ 7
      rw [writeU32, Leb128.unsigned]
      by_cases more : value >>> 7 = 0
      · have zero : value.toNat / 128 = 0 := by
          rw [← shifted, more]
          rfl
        rw [if_neg (not_not.2 more), if_pos (by omega)]
        congr 1
        rw [← UInt8.toNat_inj, low, Leb128.toNat_ofNat (by omega)]
        omega
      · have smaller := toNat_shiftRight_lt more
        have positive : (value >>> 7).toNat ≠ 0 := by
          intro zero
          exact more (UInt32.toNat_inj.1 zero)
        rw [if_pos more, if_neg (by omega), or_high_bit (by omega), low,
          ih _ (by omega) (value >>> 7) rfl, shifted, size]

/-- The loop of `writeI64` stops where one group of seven holds what is left. -/
theorem writeI64_done (value : Int64) :
    ((value >>> 7 = 0 ∧ ¬ ((value &&& 0x7f).toUInt64.toUInt8 &&& 0x40 ≠ 0)) ∨
      (value >>> 7 = -1 ∧ (value &&& 0x7f).toUInt64.toUInt8 &&& 0x40 ≠ 0)) ↔
    -64 ≤ value.toInt ∧ value.toInt < 64 := by
  have low := low_byte_i64 value
  have zero : value >>> 7 = 0 ↔ value.toInt / 128 = 0 := by
    rw [← toInt_shiftRight_seven, ← Int64.toInt_inj]
    rfl
  have last : value >>> 7 = -1 ↔ value.toInt / 128 = -1 := by
    rw [← toInt_shiftRight_seven, ← Int64.toInt_inj]
    rfl
  rw [and_sign_bit (by omega), low, zero, last]
  omega

/-- The loop of `writeI64` writes the shortest encoding. -/
theorem writeI64_eq (value : Int64) : writeI64 value = Leb128.signed value.toInt := by
  induction size : value.toInt.natAbs using Nat.strongRecOn generalizing value with
  | ind size ih =>
      have low := low_byte_i64 value
      rw [writeI64, Leb128.signed]
      simp only [writeI64_done]
      by_cases small : -64 ≤ value.toInt ∧ value.toInt < 64
      · rw [if_pos small, if_pos small, ← low, UInt8.ofNat_toNat]
      · have smaller : (value >>> 7).toInt.natAbs < value.toInt.natAbs := by
          apply natAbs_shiftRight_lt
          · rintro rfl
            exact small (by decide)
          · rintro rfl
            exact small (by decide)
        rw [if_neg small, if_neg small, or_high_bit (by omega), low,
          ih _ (by omega) (value >>> 7) rfl, toInt_shiftRight_seven]

def readU32 : Reader UInt32 := do
  return UInt32.ofNat (← Leb128.readUnsigned 32)

def readI32 : Reader Int32 := do
  return Int32.ofInt (← Leb128.readSigned 32)

def readI64 : Reader Int64 := do
  return Int64.ofInt (← Leb128.readSigned 64)

theorem reads_u32 (value : UInt32) : Reads readU32 (writeU32 value) value := by
  rw [writeU32_eq]
  have whole := (Leb128.reads_unsigned value.toNat_lt).map UInt32.ofNat
  rwa [UInt32.ofNat_toNat] at whole

theorem reads_i64 (value : Int64) : Reads readI64 (writeI64 value) value := by
  rw [writeI64_eq]
  have whole := (Leb128.reads_signed (show 0 < 64 by decide) value.le_toInt
    value.toInt_lt).map Int64.ofInt
  rwa [Int64.ofInt_toInt] at whole

theorem reads_i32 (value : Int32) : Reads readI32 (writeI32 value) value := by
  rw [writeI32, writeI64_eq, Int32.toInt_toInt64]
  have whole := (Leb128.reads_signed (show 0 < 32 by decide) value.le_toInt
    value.toInt_lt).map Int32.ofInt
  rwa [Int32.ofInt_toInt] at whole

/-! ## Instructions -/

mutual

/-- An instruction as the bytes hold it, without the markers. -/
def Ins.erase : Ins → Ins
  | .marked _ inner => inner.erase
  | .block result body => .block result (Ins.eraseAll body)
  | .loop result body => .loop result (Ins.eraseAll body)
  | .if_ result then_ otherwise =>
      .if_ result (Ins.eraseAll then_) (Ins.eraseAll otherwise)
  | other => other

def Ins.eraseAll : List Ins → List Ins
  | [] => []
  | instruction :: rest => instruction.erase :: Ins.eraseAll rest

end

def valTypeOf (byte : UInt8) : Option ValType :=
  if byte = 0x7f then some .i32 else if byte = 0x7e then some .i64 else none

def blockTypeOf (byte : UInt8) : Option (Option ValType) :=
  if byte = 0x40 then some none else (valTypeOf byte).map some

def readValType : Reader ValType := Reader.decoded valTypeOf

def readBlockType : Reader (Option ValType) := Reader.decoded blockTypeOf

/-- The instructions that are one byte. -/
def plainIns : UInt8 → Option Ins
  | 0x00 => some .unreachable
  | 0x01 => some .nop
  | 0x0f => some .return_
  | 0x1a => some .drop
  | 0x45 => some .i32Eqz
  | 0x46 => some .i32Eq
  | 0x47 => some .i32Ne
  | 0x48 => some .i32LtS
  | 0x4a => some .i32GtS
  | 0x4c => some .i32LeS
  | 0x4e => some .i32GeS
  | 0x50 => some .i64Eqz
  | 0x51 => some .i64Eq
  | 0x52 => some .i64Ne
  | 0x53 => some .i64LtS
  | 0x55 => some .i64GtS
  | 0x57 => some .i64LeS
  | 0x59 => some .i64GeS
  | 0x6a => some .i32Add
  | 0x6b => some .i32Sub
  | 0x6c => some .i32Mul
  | 0x71 => some .i32And
  | 0x72 => some .i32Or
  | 0x7c => some .i64Add
  | 0x7d => some .i64Sub
  | 0x7e => some .i64Mul
  | 0x7f => some .i64DivS
  | 0x81 => some .i64RemS
  | 0x85 => some .i64Xor
  | 0xa7 => some .i32WrapI64
  | 0xac => some .i64ExtendI32S
  | _ => none

/-- An alignment and an offset, where the alignment is the natural one. -/
def readMemoryArgument (align : UInt32) : Reader UInt32 := do
  let found ← readU32
  if found = align then readU32 else failure

/-- A body that ends with `end`, out of one that may also end with `else`. -/
def readClosed (body : Reader (List Ins × UInt8)) : Reader (List Ins) := do
  let read ← body
  if read.2 = 0x0b then return read.1 else failure

/-- What follows an opcode that takes operands; `body` reads a nested body. -/
def readOperands (body : Reader (List Ins × UInt8)) : UInt8 → Reader Ins
  | 0x02 => do
      let result ← readBlockType
      return .block result (← readClosed body)
  | 0x03 => do
      let result ← readBlockType
      return .loop result (← readClosed body)
  | 0x04 => do
      let result ← readBlockType
      let read ← body
      if read.2 = 0x05 then
        return .if_ result read.1 (← readClosed body)
      else return .if_ result read.1 []
  | 0x0c => do return .br (← readU32)
  | 0x0d => do return .brIf (← readU32)
  | 0x10 => do return .call (← readU32)
  | 0x11 => do
      let ty ← readU32
      let table ← readU32
      if table = 0 then return .callIndirect ty else failure
  | 0x20 => do return .localGet (← readU32)
  | 0x21 => do return .localSet (← readU32)
  | 0x22 => do return .localTee (← readU32)
  | 0x28 => do return .i32Load (← readMemoryArgument 2)
  | 0x29 => do return .i64Load (← readMemoryArgument 3)
  | 0x2d => do return .i32Load8U (← readMemoryArgument 0)
  | 0x36 => do return .i32Store (← readMemoryArgument 2)
  | 0x37 => do return .i64Store (← readMemoryArgument 3)
  | 0x3a => do return .i32Store8 (← readMemoryArgument 0)
  | 0x3f => do
      Reader.expect 0x00
      return .memorySize
  | 0x40 => do
      Reader.expect 0x00
      return .memoryGrow
  | 0x41 => do return .i32Const (← readI32)
  | 0x42 => do return .i64Const (← readI64)
  | _ => failure

/-- The instruction of an opcode. -/
def readIns (body : Reader (List Ins × UInt8)) (opcode : UInt8) : Reader Ins :=
  match plainIns opcode with
  | some instruction => return instruction
  | none => readOperands body opcode

/-- Instructions up to the `end` or the `else` that closes them, and which of the
two it was. -/
def readSequence : Nat → Reader (List Ins × UInt8)
  | 0 => failure
  | fuel + 1 => do
      let opcode ← Reader.byte
      if opcode = 0x0b ∨ opcode = 0x05 then return ([], opcode)
      else
        let first ← readIns (readSequence fuel) opcode
        let read ← readSequence fuel
        return (first :: read.1, read.2)

/-- The bytes of an instruction are an opcode, which closes no body, and the operands
that the opcode's reader takes. -/
def Decodes (body : Reader (List Ins × UInt8)) (instruction : Ins) : Prop :=
  ∃ opcode operands, instruction.write = opcode :: operands ∧
    ¬ (opcode = 0x0b ∨ opcode = 0x05) ∧
    Reads (readIns body opcode) operands instruction.erase

section Families

variable {body : Reader (List Ins × UInt8)} {opcode : UInt8}

theorem decodes_plain {instruction : Ins} (written : instruction.write = [opcode])
    (opens : ¬ (opcode = 0x0b ∨ opcode = 0x05))
    (plain : plainIns opcode = some instruction)
    (bare : instruction.erase = instruction) : Decodes body instruction := by
  refine ⟨opcode, [], written, opens, ?_⟩
  rw [readIns, plain, bare]
  exact Reads.pure instruction

/-- An instruction with one operand, read by `operand` and wrapped. -/
theorem decodes_operand {wrap : α → Ins} {operand : Reader α} {value : α}
    {operands : List UInt8}
    (written : (wrap value).write = opcode :: operands)
    (opens : ¬ (opcode = 0x0b ∨ opcode = 0x05))
    (reader : readIns body opcode = do return wrap (← operand))
    (bare : (wrap value).erase = wrap value)
    (reads : Reads operand operands value) : Decodes body (wrap value) := by
  refine ⟨opcode, operands, written, opens, ?_⟩
  rw [reader, bare]
  exact reads.map wrap

theorem reads_memory_argument (align offset : UInt32) :
    Reads (readMemoryArgument align) (writeU32 align ++ writeU32 offset) offset := by
  exact (reads_u32 align).bind (Reads.met rfl (reads_u32 offset))

/-- An instruction that is followed by one zero byte. -/
theorem decodes_zero {instruction : Ins}
    (written : instruction.write = [opcode, 0x00])
    (opens : ¬ (opcode = 0x0b ∨ opcode = 0x05))
    (reader : readIns body opcode = do Reader.expect 0x00; return instruction)
    (bare : instruction.erase = instruction) : Decodes body instruction := by
  refine ⟨opcode, [0x00], written, opens, ?_⟩
  rw [reader, bare]
  exact (Reads.expect 0x00).bind (Reads.pure instruction)

theorem reads_block_type (result : Option ValType) :
    Reads readBlockType [writeBlockType result] result := by
  apply Reads.decoded
  rcases result with _ | _ | _ <;> decide

theorem reads_closed {content : List UInt8} {instructions : List Ins}
    (reads : Reads body content (instructions, 0x0b)) :
    Reads (readClosed body) content instructions := by
  rw [← List.append_nil content]
  exact reads.bind (Reads.met rfl (Reads.pure instructions))

end Families

theorem writeAll_cons (instruction : Ins) (rest : List Ins) :
    Ins.writeAll (instruction :: rest) = instruction.write ++ Ins.writeAll rest := by
  rw [Ins.writeAll]

mutual

/-- Every instruction is taken back from its bytes, its markers erased. -/
theorem decodes : ∀ (instruction : Ins) (fuel : Nat),
    instruction.write.length ≤ fuel → Decodes (readSequence fuel) instruction
  | .marked _ inner, fuel, enough => decodes inner fuel enough
  | .block result body, fuel, enough => by
      refine ⟨0x02, writeBlockType result :: (Ins.writeAll body ++ [0x0b]), rfl,
        by decide, ?_⟩
      have short : (Ins.writeAll body).length < fuel := by
        rw [Ins.write] at enough
        simp at enough
        omega
      have nested := reads_sequence body 0x0b fuel (Or.inl rfl) short
      exact (reads_block_type result).bind ((reads_closed nested).map (Ins.block result))
  | .loop result body, fuel, enough => by
      refine ⟨0x03, writeBlockType result :: (Ins.writeAll body ++ [0x0b]), rfl,
        by decide, ?_⟩
      have short : (Ins.writeAll body).length < fuel := by
        rw [Ins.write] at enough
        simp at enough
        omega
      have nested := reads_sequence body 0x0b fuel (Or.inl rfl) short
      exact (reads_block_type result).bind ((reads_closed nested).map (Ins.loop result))
  | .if_ result then_ [], fuel, enough => by
      refine ⟨0x04, writeBlockType result :: (Ins.writeAll then_ ++ [0x0b]), rfl,
        by decide, ?_⟩
      have short : (Ins.writeAll then_).length < fuel := by
        rw [Ins.write] at enough
        simp at enough
        omega
      have nested := reads_sequence then_ 0x0b fuel (Or.inl rfl) short
      refine (reads_block_type result).bind ?_
      show Reads _ (Ins.writeAll then_ ++ [0x0b]) _
      rw [← List.append_nil (Ins.writeAll then_ ++ [0x0b])]
      exact nested.bind (Reads.unmet (show ¬ ((0x0b : UInt8) = 0x05) by decide)
        (Reads.pure (Ins.if_ result (Ins.eraseAll then_) [])))
  | .if_ result then_ (first :: others), fuel, enough => by
      refine ⟨0x04, writeBlockType result :: ((Ins.writeAll then_ ++ [0x05]) ++
        (Ins.writeAll (first :: others) ++ [0x0b])), ?_, by decide, ?_⟩
      · rw [Ins.write, List.append_assoc]
        rfl
      · have short : (Ins.writeAll then_).length < fuel ∧
            (Ins.writeAll (first :: others)).length < fuel := by
          rw [Ins.write] at enough
          simp at enough
          constructor <;> omega
        have arm := reads_sequence then_ 0x05 fuel (Or.inr rfl) short.1
        have other := reads_sequence (first :: others) 0x0b fuel (Or.inl rfl) short.2
        refine (reads_block_type result).bind (arm.bind (Reads.met rfl ?_))
        exact (reads_closed other).map (Ins.if_ result (Ins.eraseAll then_))
  | .br depth, _, _ => decodes_operand rfl (by decide) rfl rfl (reads_u32 depth)
  | .brIf depth, _, _ => decodes_operand rfl (by decide) rfl rfl (reads_u32 depth)
  | .call index, _, _ => decodes_operand rfl (by decide) rfl rfl (reads_u32 index)
  | .callIndirect ty, _, _ => by
      refine ⟨0x11, writeU32 ty ++ writeU32 0, rfl, by decide, ?_⟩
      rw [← List.append_nil (writeU32 0)]
      exact (reads_u32 ty).bind ((reads_u32 0).bind
        (Reads.met rfl (Reads.pure (Ins.callIndirect ty))))
  | .localGet index, _, _ => decodes_operand rfl (by decide) rfl rfl (reads_u32 index)
  | .localSet index, _, _ => decodes_operand rfl (by decide) rfl rfl (reads_u32 index)
  | .localTee index, _, _ => decodes_operand rfl (by decide) rfl rfl (reads_u32 index)
  | .i32Const value, _, _ => decodes_operand rfl (by decide) rfl rfl (reads_i32 value)
  | .i64Const value, _, _ => decodes_operand rfl (by decide) rfl rfl (reads_i64 value)
  | .i32Load offset, _, _ =>
      decodes_operand rfl (by decide) rfl rfl (reads_memory_argument 2 offset)
  | .i64Load offset, _, _ =>
      decodes_operand rfl (by decide) rfl rfl (reads_memory_argument 3 offset)
  | .i32Load8U offset, _, _ =>
      decodes_operand rfl (by decide) rfl rfl (reads_memory_argument 0 offset)
  | .i32Store offset, _, _ =>
      decodes_operand rfl (by decide) rfl rfl (reads_memory_argument 2 offset)
  | .i64Store offset, _, _ =>
      decodes_operand rfl (by decide) rfl rfl (reads_memory_argument 3 offset)
  | .i32Store8 offset, _, _ =>
      decodes_operand rfl (by decide) rfl rfl (reads_memory_argument 0 offset)
  | .memorySize, _, _ => decodes_zero rfl (by decide) rfl rfl
  | .memoryGrow, _, _ => decodes_zero rfl (by decide) rfl rfl
  | .unreachable, _, _ => decodes_plain rfl (by decide) rfl rfl
  | .nop, _, _ => decodes_plain rfl (by decide) rfl rfl
  | .return_, _, _ => decodes_plain rfl (by decide) rfl rfl
  | .drop, _, _ => decodes_plain rfl (by decide) rfl rfl
  | .i32Add, _, _ => decodes_plain rfl (by decide) rfl rfl
  | .i32Sub, _, _ => decodes_plain rfl (by decide) rfl rfl
  | .i32Mul, _, _ => decodes_plain rfl (by decide) rfl rfl
  | .i32Eq, _, _ => decodes_plain rfl (by decide) rfl rfl
  | .i32Ne, _, _ => decodes_plain rfl (by decide) rfl rfl
  | .i32LtS, _, _ => decodes_plain rfl (by decide) rfl rfl
  | .i32LeS, _, _ => decodes_plain rfl (by decide) rfl rfl
  | .i32GtS, _, _ => decodes_plain rfl (by decide) rfl rfl
  | .i32GeS, _, _ => decodes_plain rfl (by decide) rfl rfl
  | .i32And, _, _ => decodes_plain rfl (by decide) rfl rfl
  | .i32Or, _, _ => decodes_plain rfl (by decide) rfl rfl
  | .i32Eqz, _, _ => decodes_plain rfl (by decide) rfl rfl
  | .i64Add, _, _ => decodes_plain rfl (by decide) rfl rfl
  | .i64Sub, _, _ => decodes_plain rfl (by decide) rfl rfl
  | .i64Mul, _, _ => decodes_plain rfl (by decide) rfl rfl
  | .i64Xor, _, _ => decodes_plain rfl (by decide) rfl rfl
  | .i64DivS, _, _ => decodes_plain rfl (by decide) rfl rfl
  | .i64RemS, _, _ => decodes_plain rfl (by decide) rfl rfl
  | .i64Eq, _, _ => decodes_plain rfl (by decide) rfl rfl
  | .i64Ne, _, _ => decodes_plain rfl (by decide) rfl rfl
  | .i64LtS, _, _ => decodes_plain rfl (by decide) rfl rfl
  | .i64LeS, _, _ => decodes_plain rfl (by decide) rfl rfl
  | .i64GtS, _, _ => decodes_plain rfl (by decide) rfl rfl
  | .i64GeS, _, _ => decodes_plain rfl (by decide) rfl rfl
  | .i64Eqz, _, _ => decodes_plain rfl (by decide) rfl rfl
  | .i32WrapI64, _, _ => decodes_plain rfl (by decide) rfl rfl
  | .i64ExtendI32S, _, _ => decodes_plain rfl (by decide) rfl rfl

/-- A body is taken back, whichever byte closes it. -/
theorem reads_sequence : ∀ (body : List Ins) (closing : UInt8) (fuel : Nat),
    closing = 0x0b ∨ closing = 0x05 → (Ins.writeAll body).length < fuel →
    Reads (readSequence fuel) (Ins.writeAll body ++ [closing])
      (Ins.eraseAll body, closing)
  | _, _, 0, _, enough => absurd enough (Nat.not_lt_zero _)
  | [], closing, fuel + 1, closes, _ =>
      (Reads.byte closing).bind (Reads.met closes (Reads.pure ([], closing)))
  | instruction :: rest, closing, fuel + 1, closes, enough => by
      rw [writeAll_cons, List.length_append] at enough
      rcases decodes instruction fuel (by omega) with
        ⟨opcode, operands, written, opens, reads⟩
      have longer : (Ins.writeAll rest).length < fuel := by
        rw [written, List.length_cons] at enough
        omega
      have others := reads_sequence rest closing fuel closes longer
      rw [writeAll_cons, written, List.append_assoc]
      refine (Reads.byte opcode).bind (Reads.unmet opens (reads.bind ?_))
      exact others.map fun read => (instruction.erase :: read.1, read.2)

end

end Deed.Wasm
