import Deed.Wasm.Words

/-!
# Memory

Words and bytes put into memory and read back, with the rules for the loads and
the stores.
-/

namespace Deed.Wasm

variable {engine : Engine} {rest : List Ins} {post : Outcome → Prop}
  {memory after : Memory} {locals stack : List Value}

/-! ## Bytes of numbers -/

theorem byteOf_succ (value position : Nat) :
    byteOf value (position + 1) = byteOf (value / 256) position := by
  rw [byteOf, byteOf, Nat.pow_succ', Nat.div_div_eq_div_mul]

theorem toNat_byteOf (value position : Nat) :
    (byteOf value position).toNat = value / 256 ^ position % 256 := by
  rw [byteOf, UInt8.toNat_ofNat']
  exact Nat.mod_eq_of_lt (Nat.mod_lt _ (by decide))

/-- The lowest bytes of a number spell what is left of it below them. -/
theorem littleEndian_byteOf (value count : Nat) :
    littleEndian ((List.range count).map (byteOf value)) = value % 256 ^ count := by
  induction count generalizing value with
  | zero => exact (Nat.mod_one value).symm
  | succ count ih =>
      have tail : (List.range count).map (byteOf value ∘ Nat.succ) =
          (List.range count).map (byteOf (value / 256)) := by
        congr 1
        funext position
        exact byteOf_succ value position
      rw [List.range_succ_eq_map, List.map_cons, List.map_map, tail, littleEndian,
        ih, toNat_byteOf, Nat.pow_zero, Nat.div_one, Nat.pow_succ', Nat.mod_mul]

theorem littleEndian_lt (bytes : List UInt8) :
    littleEndian bytes < 256 ^ bytes.length := by
  induction bytes with
  | nil => exact Nat.one_pos
  | cons byte rest ih =>
      have small := byte.toNat_lt
      rw [littleEndian, List.length_cons, Nat.pow_succ']
      omega

/-! ## Putting and reading -/

namespace Memory

/-- The integer in the eight bytes at an address. -/
def read (memory : Memory) (address : Nat) : Option Int :=
  (memory.load address).map Int64.toInt

/-- An integer put into the eight bytes at an address. -/
def put (memory : Memory) (address : Nat) (number : Int) : Memory :=
  (memory.store address 8 (Int64.ofInt number).toUInt64.toNat).getD memory

/-- The lowest byte of a number put at an address. -/
def putByte (memory : Memory) (address number : Nat) : Memory :=
  (memory.store address 1 (Int32.ofNat number).toUInt32.toNat).getD memory

theorem store_eq {address count value : Nat} (inside : address + count ≤ memory.size) :
    memory.store address count value = some (memory.write address count value inside) :=
  dif_pos inside

theorem store_outside {address count value : Nat}
    (outside : ¬ address + count ≤ memory.size) :
    memory.store address count value = none :=
  dif_neg outside

@[simp]
theorem pages_put {address : Nat} {number : Int} :
    (memory.put address number).pages = memory.pages := by
  rw [put, store]
  split <;> rfl

@[simp]
theorem pages_putByte {address number : Nat} :
    (memory.putByte address number).pages = memory.pages := by
  rw [putByte, store]
  split <;> rfl

@[simp]
theorem size_put {address : Nat} {number : Int} :
    (memory.put address number).size = memory.size := by
  rw [size, pages_put, size]

@[simp]
theorem size_putByte {address number : Nat} :
    (memory.putByte address number).size = memory.size := by
  rw [size, pages_putByte, size]

theorem bytes_put_other {address at_ : Nat} {number : Int}
    (apart : at_ < address ∨ address + 8 ≤ at_) :
    (memory.put address number).bytes at_ = memory.bytes at_ := by
  rw [put, store]
  split
  · exact if_neg fun within => by omega
  · rfl

theorem bytes_putByte_other {address at_ number : Nat} (apart : at_ ≠ address) :
    (memory.putByte address number).bytes at_ = memory.bytes at_ := by
  rw [putByte, store]
  split
  · exact if_neg fun within => by omega
  · rfl

theorem bytes_putByte {address : Nat} {byte : UInt8} (inside : address < memory.size) :
    (memory.putByte address byte.toNat).bytes address = byte := by
  have small := byte.toNat_lt
  have kept : (Int32.ofNat byte.toNat).toUInt32.toNat = byte.toNat := by
    rw [Int32.toUInt32_ofNat', UInt32.toNat_ofNat']
    exact Nat.mod_eq_of_lt (by omega)
  rw [putByte, store_eq inside, kept]
  show (if _ then byteOf byte.toNat (address - address) else _) = byte
  rw [if_pos (by omega), Nat.sub_self, byteOf, Nat.pow_zero, Nat.div_one,
    Nat.mod_eq_of_lt (by omega), UInt8.ofNat_toNat]

/-- Bytes that agree read as the same integer. -/
theorem read_congr {address : Nat} (size : memory.size ≤ after.size)
    (same : ∀ at_, address ≤ at_ → at_ < address + 8 → after.bytes at_ = memory.bytes at_)
    {number : Int} (reads : memory.read address = some number) :
    after.read address = some number := by
  have slices : after.slice address 8 = memory.slice address 8 := by
    apply List.map_congr_left
    intro position below
    have bound := List.mem_range.1 below
    exact same _ (by omega) (by omega)
  rw [read, load] at reads ⊢
  split at reads
  · rw [if_pos (by omega), word, slices]
    exact reads
  · exact absurd reads.symm (Option.some_ne_none _)

theorem read_put_other {address other : Nat} {number found : Int}
    (apart : other + 8 ≤ address ∨ address + 8 ≤ other)
    (reads : memory.read other = some found) :
    (memory.put address number).read other = some found := by
  refine read_congr (Nat.le_of_eq size_put.symm) ?_ reads
  intro at_ above below
  exact bytes_put_other (by omega)

/-- What was put is read back. -/
theorem read_put {address : Nat} {number : Int} (inside : address + 8 ≤ memory.size)
    (fits : Fits64 number) : (memory.put address number).read address = some number := by
  have slices : (memory.put address number).slice address 8 =
      (List.range 8).map (byteOf (Int64.ofInt number).toUInt64.toNat) := by
    apply List.map_congr_left
    intro position below
    have bound := List.mem_range.1 below
    rw [put, store_eq inside]
    show (if _ then byteOf _ (address + position - address) else _) = _
    rw [if_pos (by omega), Nat.add_sub_cancel_left]
  have value : (memory.put address number).word address = Int64.ofInt number := by
    have small : (Int64.ofInt number).toUInt64.toNat < 256 ^ 8 :=
      (Int64.ofInt number).toUInt64.toNat_lt
    rw [word, slices, littleEndian_byteOf, Nat.mod_eq_of_lt small]
    exact Int64.ofNat_bitVecToNat _
  rw [read, load, if_pos (by rwa [size_put]), value, Option.map_some, toInt_ofInt64 fits]

end Memory

/-! ## Loads and stores -/

theorem effective_word {address : Nat} {offset : UInt32} (small : address < 2 ^ 32) :
    effective (Int32.ofNat address) offset = address + offset.toNat := by
  rw [effective, Int32.toUInt32_ofNat', UInt32.toNat_ofNat', Nat.mod_eq_of_lt small]

@[simp]
theorem runs_i64Load {address : Nat} {offset : UInt32} (small : address < 2 ^ 32) :
    Runs engine (.i64Load offset :: rest) ⟨memory, locals, word32 address :: stack⟩ post ↔
      (memory.read (address + offset.toNat)).elim (post (.trapped .outOfBounds))
        fun number => Runs engine rest ⟨memory, locals, word64 number :: stack⟩ post := by
  have stepped : step engine (.i64Load offset)
      ⟨memory, locals, word32 address :: stack⟩ =
      accessed (memory.load (effective (Int32.ofNat address) offset)) fun value =>
        ⟨memory, locals, .i64 value :: stack⟩ := rfl
  rw [runs_plain rfl, stepped, effective_word small, Memory.read]
  cases memory.load (address + offset.toNat) with
  | none => rfl
  | some value =>
      have whole : word64 value.toInt = .i64 value :=
        congrArg Value.i64 (Int64.ofInt_toInt value)
      rw [Option.map_some, Option.elim_some, whole]
      rfl

@[simp]
theorem runs_i32Load8U {address : Nat} {offset : UInt32} (small : address < 2 ^ 32) :
    Runs engine (.i32Load8U offset :: rest) ⟨memory, locals, word32 address :: stack⟩
        post ↔
      if address + offset.toNat < memory.size then
        Runs engine rest ⟨memory, locals,
          word32 (memory.bytes (address + offset.toNat)).toNat :: stack⟩ post
      else post (.trapped .outOfBounds) := by
  have stepped : step engine (.i32Load8U offset)
      ⟨memory, locals, word32 address :: stack⟩ =
      accessed (memory.loadByte (effective (Int32.ofNat address) offset)) fun value =>
        ⟨memory, locals, .i32 (Int32.ofNat value.toNat) :: stack⟩ := rfl
  rw [runs_plain rfl, stepped, effective_word small, Memory.loadByte]
  split <;> rfl

@[simp]
theorem runs_i64Store {address : Nat} {offset : UInt32} {number : Int}
    (small : address < 2 ^ 32) :
    Runs engine (.i64Store offset :: rest)
        ⟨memory, locals, word64 number :: word32 address :: stack⟩ post ↔
      if address + offset.toNat + 8 ≤ memory.size then
        Runs engine rest ⟨memory.put (address + offset.toNat) number, locals, stack⟩ post
      else post (.trapped .outOfBounds) := by
  have stepped : step engine (.i64Store offset)
      ⟨memory, locals, word64 number :: word32 address :: stack⟩ =
      accessed (memory.store (effective (Int32.ofNat address) offset) 8
        (Int64.ofInt number).toUInt64.toNat) fun memory =>
        ⟨memory, locals, stack⟩ := rfl
  rw [runs_plain rfl, stepped, effective_word small, Memory.put]
  split
  · next inside =>
      rw [Memory.store_eq inside]
      rfl
  · next outside =>
      rw [Memory.store_outside outside]
      rfl

@[simp]
theorem runs_i32Store8 {address number : Nat} {offset : UInt32}
    (small : address < 2 ^ 32) :
    Runs engine (.i32Store8 offset :: rest)
        ⟨memory, locals, word32 number :: word32 address :: stack⟩ post ↔
      if address + offset.toNat < memory.size then
        Runs engine rest ⟨memory.putByte (address + offset.toNat) number, locals, stack⟩
          post
      else post (.trapped .outOfBounds) := by
  have stepped : step engine (.i32Store8 offset)
      ⟨memory, locals, word32 number :: word32 address :: stack⟩ =
      accessed (memory.store (effective (Int32.ofNat address) offset) 1
        (Int32.ofNat number).toUInt32.toNat) fun memory =>
        ⟨memory, locals, stack⟩ := rfl
  rw [runs_plain rfl, stepped, effective_word small, Memory.putByte]
  split
  · next inside =>
      rw [Memory.store_eq inside]
      rfl
  · next outside =>
      rw [Memory.store_outside outside]
      rfl

@[simp]
theorem runs_memorySize :
    Runs engine (.memorySize :: rest) ⟨memory, locals, stack⟩ post ↔
      Runs engine rest ⟨memory, locals, word32 memory.pages :: stack⟩ post :=
  runs_plain rfl

/-- Growing by one page, or the refusal. -/
theorem runs_memoryGrow_one :
    Runs engine (.memoryGrow :: rest) ⟨memory, locals, word32 1 :: stack⟩ post ↔
      if memory.pages + 1 ≤ engine.ceiling then
        Runs engine rest ⟨memory.grow 1, locals, word32 memory.pages :: stack⟩ post
      else Runs engine rest ⟨memory, locals, .i32 (-1) :: stack⟩ post := by
  have stepped : step engine .memoryGrow ⟨memory, locals, word32 1 :: stack⟩ =
      if memory.pages + 1 ≤ engine.ceiling then
        .ok ⟨memory.grow 1, locals, word32 memory.pages :: stack⟩
      else .ok ⟨memory, locals, .i32 (-1) :: stack⟩ := rfl
  rw [runs_plain rfl, stepped]
  split <;> rfl

end Deed.Wasm
