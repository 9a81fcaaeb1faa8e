import Deed.Host.Call
import Deed.Runtime.Values

/-!
# What a host writes into a module's memory

The strings, lists and aggregates that `HostCall` puts at the bump pointer: when there is
one, nothing below it changes, and what is there afterwards is the value.
-/

namespace Deed.Host

open Deed.Wasm Deed.Rt

variable {memory after : Memory} {place size top : Nat} {words : List Int64}
  {bytes : List UInt8} {found : Text}

/-! ## Words and bytes -/

theorem fits_toInt (word : Int64) : Fits64 word.toInt := ⟨word.le_toInt, word.toInt_lt⟩

theorem store_eq {word : Int64} (inside : place + 8 ≤ memory.size) :
    store memory place word = .ok (memory.put place word.toInt) := by
  rw [store, Memory.put, Int64.ofInt_toInt, Memory.store_eq inside]
  rfl

/-- Words put one after the other. -/
def putAll (memory : Memory) (place : Nat) : List Int64 → Memory
  | [] => memory
  | word :: words => putAll (memory.put place word.toInt) (place + 8) words

theorem size_putAll : (putAll memory place words).size = memory.size := by
  induction words generalizing memory place with
  | nil => rfl
  | cons word words ih => rw [putAll, ih, Memory.size_put]

theorem storeAll_eq (inside : place + 8 * words.length ≤ memory.size) :
    storeAll memory place words = .ok (putAll memory place words) := by
  induction words generalizing memory place with
  | nil => rfl
  | cons word words ih =>
      rw [List.length_cons] at inside
      rw [storeAll, store_eq (by omega)]
      exact ih (by rw [Memory.size_put, Runtime.WORD_eq]; omega)

theorem bytes_putAll_other {other : Nat}
    (apart : other < place ∨ place + 8 * words.length ≤ other) :
    (putAll memory place words).bytes other = memory.bytes other := by
  induction words generalizing memory place with
  | nil => rfl
  | cons word words ih =>
      rw [List.length_cons] at apart
      rw [putAll, ih (by omega), Memory.bytes_put_other (by omega)]

theorem read_putAll {index : Nat} (inside : place + 8 * words.length ≤ memory.size)
    (below : index < words.length) :
    (putAll memory place words).read (place + index * 8) = some words[index].toInt := by
  induction words generalizing memory place index with
  | nil => exact absurd below (Nat.not_lt_zero _)
  | cons word words ih =>
      rw [List.length_cons] at inside below
      rcases index with _ | index
      · have first := @Memory.read_put memory place word.toInt (by omega) (fits_toInt word)
        rw [Nat.zero_mul, Nat.add_zero, putAll]
        refine Memory.read_congr (Nat.le_of_eq size_putAll.symm) ?_ first
        intro other above under
        exact bytes_putAll_other (by omega)
      · rw [putAll, show place + (index + 1) * 8 = place + 8 + index * 8 by omega]
        exact ih (by rw [Memory.size_put]; omega) (by omega)

/-- Bytes put in a row. -/
def fill (memory : Memory) (place : Nat) (bytes : List UInt8) : Memory :=
  (copy memory place bytes).getD memory

theorem copy_eq (inside : place + bytes.length ≤ memory.size) :
    copy memory place bytes = some (fill memory place bytes) := by
  rw [fill, copy, dif_pos inside, Option.getD_some]

theorem size_fill : (fill memory place bytes).size = memory.size := by
  rw [fill, copy]
  split <;> rfl

theorem bytes_fill_other {other : Nat}
    (apart : other < place ∨ place + bytes.length ≤ other) :
    (fill memory place bytes).bytes other = memory.bytes other := by
  rw [fill, copy]
  split
  · exact if_neg fun within => by omega
  · rfl

theorem bytes_fill {index : Nat} (inside : place + bytes.length ≤ memory.size)
    (below : index < bytes.length) :
    (fill memory place bytes).bytes (place + index) = bytes[index] := by
  rw [fill, copy, dif_pos inside]
  show (if _ then bytes.getD (place + index - place) 0 else _) = _
  rw [if_pos (by omega), Nat.add_sub_cancel_left, List.getD_eq_getElem _ _ below]

/-! ## The bump pointer -/

theorem unsigned_ofInt (below : size < 2 ^ 64) : unsigned (Int64.ofInt size) = size := by
  rw [unsigned, Int64.ofInt_eq_ofNat, Int64.toUInt64_ofNat', UInt64.toNat_ofNat']
  exact Nat.mod_eq_of_lt below

theorem allocate_load {word : Int64} (load : memory.load 0 = some word)
    (start : unsigned word ≠ 0) (fits : unsigned word + size ≤ memory.size)
    (small : unsigned word + size < 2 ^ 64) :
    allocate memory size =
      some (unsigned word, memory.put 0 (unsigned word + size : Nat)) := by
  have whole : 8 ≤ memory.size := by
    rw [Memory.load] at load
    split at load
    · omega
    · exact absurd load (by simp)
  have stored : memory.store 0 8 (unsigned word + size) =
      some (memory.put 0 (unsigned word + size : Nat)) := by
    have value := unsigned_ofInt small
    rw [unsigned] at value
    rw [Memory.put, value, Memory.store_eq (by omega)]
    rfl
  rw [allocate, Runtime.BUMP_eq, load]
  simp only [Option.bind_eq_bind, Option.bind_some]
  rw [if_neg (by omega), if_neg (by omega), stored]
  rfl

/-- Wherever the bump pointer is, an allocation is inside the memory. -/
theorem allocate_cases (memory : Memory) (size : Nat) :
    allocate memory size = none ∨ ∃ place : Nat, place + size < 2 ^ 64 ∧
      place + size ≤ memory.size ∧ allocate memory size = some (place, memory.put 0 (place + size : Nat)) := by
  cases load : memory.load 0 with
  | none =>
      left
      rw [allocate, Runtime.BUMP_eq, load]
      rfl
  | some word =>
      by_cases room : unsigned word ≠ 0 ∧ unsigned word + size ≤ memory.size ∧
        unsigned word + size < 2 ^ 64
      · rcases room with ⟨start, fits, small⟩
        exact Or.inr ⟨_, small, fits, allocate_load load start fits small⟩
      · left
        rw [allocate, Runtime.BUMP_eq, load]
        simp only [Option.bind_eq_bind, Option.bind_some]
        split
        · rfl
        · rw [if_pos (by omega)]

theorem allocate_eq (bump : memory.read 0 = some (top : Int)) (start : 0 < top)
    (fits : top + size ≤ memory.size) (small : memory.size < 2 ^ 63) :
    allocate memory size = some (top, memory.put 0 (top + size : Nat)) := by
  rcases load : memory.load 0 with _ | word
  · rw [Memory.read, load] at bump
    exact absurd bump (by simp)
  · have value : word.toInt = top := by
      rw [Memory.read, load] at bump
      exact Option.some.inj bump
    have place : unsigned word = top := by
      rw [← Int64.ofInt_toInt word, value]
      exact unsigned_ofInt (by omega)
    rw [← place] at start fits ⊢
    exact allocate_load load (Nat.ne_of_gt start) fits (by omega)

/-! ## Values -/

theorem ok_bind {α β : Type} {value : α} {next : α → Except Ended β} :
    (Except.ok value >>= next) = next value := rfl

theorem stringSize_eq (short : size ≤ 2 ^ 32 - 24) :
    stringSize size = .ok (Runtime.stringSize size) := by
  have whole : Runtime.stringSize size < 2 ^ 32 := by
    rw [Runtime.stringSize, Runtime.WORD_eq]
    omega
  rw [stringSize, Nat.mod_eq_of_lt (by omega), size32, if_pos whole]

theorem listSize_eq (short : size < 2 ^ 29 - 1) :
    listSize size = .ok (Runtime.listSize size) := by
  have whole : Runtime.listSize size < 2 ^ 32 := by
    rw [Runtime.listSize, Runtime.WORD_eq]
    omega
  rw [listSize, Nat.mod_eq_of_lt (by omega), size32, if_pos whole]

/-- The memory with a string put at a place. -/
def textPut (memory : Memory) (place : Nat) (found : Text) : Memory :=
  fill (putAll memory place
      [Int64.ofNat found.length, Int64.ofNat (asBytes found).length]) (place + 16)
    (asBytes found)

theorem writeText_eq (short : (asBytes found).length ≤ 2 ^ 32 - 24)
    (inside : place + Runtime.stringSize (asBytes found).length ≤ after.size)
    (allocated : allocate memory (Runtime.stringSize (asBytes found).length) =
      some (place, after)) :
    writeText memory found = .ok (some (address place, textPut after place found)) := by
  have size := Runtime.length_le_stringSize (asBytes found).length
  have copied := @copy_eq (putAll after place
    [Int64.ofNat found.length, Int64.ofNat (asBytes found).length]) (place + 16) (asBytes found)
    (by rw [size_putAll]; omega)
  rw [writeText, stringSize_eq short, ok_bind, allocated]
  dsimp only
  rw [store_eq (by omega), ok_bind, store_eq (by rw [Memory.size_put]; omega), ok_bind, show (after.put place (Int64.ofNat found.length).toInt).put (place + 8)
    (Int64.ofNat (asBytes found).length).toInt = putAll after place
      [Int64.ofNat found.length, Int64.ofNat (asBytes found).length] from rfl, copied]
  rfl

/-- Writing a string that is not too long puts it somewhere in the memory, or finds no room. -/
theorem writeText_cases (memory : Memory) (short : (asBytes found).length ≤ 2 ^ 32 - 24) :
    ∃ outcome, writeText memory found = .ok outcome := by
  rcases allocate_cases memory (Runtime.stringSize (asBytes found).length) with
    full | ⟨place, -, inside, allocated⟩
  · refine ⟨none, ?_⟩
    rw [writeText, stringSize_eq short, ok_bind, full]
  · exact ⟨_, writeText_eq short (by rwa [Memory.size_put]) allocated⟩

/-- The memory with a list put at a place. -/
def listPut (memory : Memory) (place : Nat) (items : List Value) : Memory :=
  putAll memory place (Int64.ofNat items.length :: items.map asI64)

theorem writeList_eq {items : List Value} (short : items.length < 2 ^ 29 - 1)
    (inside : place + Runtime.listSize items.length ≤ after.size)
    (allocated : allocate memory (Runtime.listSize items.length) = some (place, after)) :
    writeList memory items = .ok (some (address place, listPut after place items)) := by
  have size : Runtime.listSize items.length = 8 + items.length * 8 := rfl
  rw [writeList, listSize_eq short, ok_bind, allocated]
  dsimp only
  rw [store_eq (by omega), ok_bind, Runtime.ELEMENTS_eq, storeAll_eq (by rw [Memory.size_put, List.length_map]; omega)]
  rfl

theorem writeList_cases {items : List Value} (memory : Memory)
    (short : items.length < 2 ^ 29 - 1) : ∃ outcome, writeList memory items = .ok outcome := by
  rcases allocate_cases memory (Runtime.listSize items.length) with
    full | ⟨place, -, inside, allocated⟩
  · refine ⟨none, ?_⟩
    rw [writeList, listSize_eq short, ok_bind, full]
  · exact ⟨_, writeList_eq short (by rwa [Memory.size_put]) allocated⟩

theorem writeAggregate_eq {tag : Int64} {field : Value} (inside : place + 16 ≤ after.size)
    (allocated : allocate memory 16 = some (place, after)) :
    writeAggregate memory (some tag) [field] =
      .ok (some (address place, putAll after place [tag, asI64 field])) := by
  have size : aggregateSize true 1 = .ok 16 := rfl
  rw [writeAggregate, Option.isSome_some, List.length_singleton, size, ok_bind, allocated]
  dsimp only
  rw [storeAll_eq (by simp; omega)]
  rfl

end Deed.Host
