import Deed.Runtime.Texts

/-!
# Copying bytes

The loop that copies a string into a block of its own, and the memory it leaves.
-/

namespace Deed.Runtime

open Deed.Wasm

variable {engine : Engine} {rest : List Ins} {post : Outcome → Prop}
  {memory after : Memory} {locals stack : List Value} {top address : Nat}
  {text : String} {bytes : List UInt8}

/-! ## Several bytes -/

/-- Bytes put into memory one after the other. -/
def putBytes (memory : Memory) (address : Nat) : List UInt8 → Memory
  | [] => memory
  | byte :: rest => putBytes (memory.putByte address byte.toNat) (address + 1) rest

theorem putBytes_concat (byte : UInt8) :
    putBytes memory address (bytes ++ [byte]) =
      (putBytes memory address bytes).putByte (address + bytes.length) byte.toNat := by
  induction bytes generalizing memory address with
  | nil => rfl
  | cons first rest ih =>
      have moved : address + 1 + rest.length = address + (rest.length + 1) := by omega
      rw [List.cons_append, putBytes, ih, putBytes, List.length_cons, moved]

@[simp]
theorem pages_putBytes : (putBytes memory address bytes).pages = memory.pages := by
  induction bytes generalizing memory address with
  | nil => rfl
  | cons first rest ih => rw [putBytes, ih, Memory.pages_putByte]

@[simp]
theorem size_putBytes : (putBytes memory address bytes).size = memory.size := by
  rw [Memory.size, pages_putBytes, Memory.size]

theorem bytes_putBytes_other {at_ : Nat} (apart : at_ < address ∨ address + bytes.length ≤ at_) :
    (putBytes memory address bytes).bytes at_ = memory.bytes at_ := by
  induction bytes generalizing memory address with
  | nil => rfl
  | cons first rest ih =>
      rw [List.length_cons] at apart
      rw [putBytes, ih (by omega), Memory.bytes_putByte_other (by omega)]

theorem bytes_putBytes {index : Nat} (below : index < bytes.length)
    (inside : address + bytes.length ≤ memory.size) :
    (putBytes memory address bytes).bytes (address + index) = bytes[index] := by
  induction bytes generalizing memory address index with
  | nil => exact absurd below (Nat.not_lt_zero _)
  | cons first rest ih =>
      rw [List.length_cons] at inside below
      rw [putBytes]
      cases index with
      | zero =>
          rw [bytes_putBytes_other (by omega), Nat.add_zero, List.getElem_cons_zero]
          exact Memory.bytes_putByte (by omega)
      | succ index =>
          have moved : address + (index + 1) = address + 1 + index := by omega
          rw [moved, List.getElem_cons_succ]
          exact ih (by omega) (by rw [Memory.size_putByte]; omega)

theorem read_putBytes_other {other : Nat} {found : Int}
    (apart : other + 8 ≤ address ∨ address + bytes.length ≤ other)
    (reads : memory.read other = some found) :
    (putBytes memory address bytes).read other = some found := by
  refine Memory.read_congr (Nat.le_of_eq size_putBytes.symm) ?_ reads
  intro at_ above below
  exact bytes_putBytes_other (by omega)

/-! ## A block that is being filled -/

/-- The heap ends above a block of `room` bytes at `top`, and what was below it is kept. -/
structure Filling (engine : Engine) (memory now : Memory) (top room : Nat) : Prop where
  heap : Heap engine now (top + room)
  kept : Kept memory now top
  start : HEAP_START ≤ top

variable {now : Memory} {room : Nat}

theorem Reserved.filling (reserved : Reserved engine memory after top room)
    (start : HEAP_START ≤ top) : Filling engine memory after top room :=
  ⟨reserved.heap, reserved.kept, start⟩

theorem Filling.inside (filling : Filling engine memory now top room) :
    top + room ≤ now.size := filling.heap.inside

theorem Filling.put (filling : Filling engine memory now top room) {at_ : Nat} {number : Int}
    (above : top ≤ at_) (below : at_ + 8 ≤ top + room) :
    Filling engine memory (now.put at_ number) top room := by
  have start := filling.start
  rw [HEAP_START] at start
  constructor
  · constructor
    · exact Memory.read_put_other (by rw [BUMP_eq]; omega) filling.heap.bump
    · exact filling.heap.start
    · rw [Memory.size_put]
      exact filling.heap.inside
    · rw [Memory.pages_put]
      exact filling.heap.pages
    · intro other beyond
      rw [Memory.bytes_put_other (by omega)]
      exact filling.heap.blank other beyond
  · exact filling.kept.put above
  · exact filling.start

theorem Filling.putBytes (filling : Filling engine memory now top room) {at_ : Nat}
    (above : top ≤ at_) (below : at_ + bytes.length ≤ top + room) :
    Filling engine memory (putBytes now at_ bytes) top room := by
  have start := filling.start
  rw [HEAP_START] at start
  constructor
  · constructor
    · exact read_putBytes_other (by rw [BUMP_eq]; omega) filling.heap.bump
    · exact filling.heap.start
    · rw [size_putBytes]
      exact filling.heap.inside
    · rw [pages_putBytes]
      exact filling.heap.pages
    · intro other beyond
      rw [bytes_putBytes_other (by omega)]
      exact filling.heap.blank other beyond
  · constructor
    · intro other reserved under
      rw [bytes_putBytes_other (by omega)]
      exact filling.kept.bytes other reserved under
    · rw [size_putBytes]
      exact filling.kept.size
  · exact filling.start

/-! ## The loop -/

/-- Copies the bytes of the string in `slot` to where `place` says. -/
def copyTo (index limit slot : UInt32) (place : List Ins) : List Ins :=
  countTo index limit (seq [place, byteAt slot index, [.i32Store8 0]])

/-- The loop leaves the bytes of the string where they were to go. -/
theorem runs_copyTo {index limit slot : UInt32} {place : List Ins} {source dest : Nat}
    (string : StringAt memory source text) (pages : memory.pages ≤ engine.ceiling)
    (above : source + 16 + (bytesOf text).length ≤ dest)
    (inside : dest + (bytesOf text).length ≤ memory.size)
    (indexIn : index.toNat < locals.length)
    (slots : ∀ count, (locals.set index.toNat (word32 count))[slot.toNat]? =
      some (word64 source))
    (limits : ∀ count, (locals.set index.toNat (word32 count))[limit.toNat]? =
      some (word32 (bytesOf text).length))
    (places : ∀ (count : Nat) (now : Memory) (rest : List Ins) (stack : List Value)
      (post : Outcome → Prop),
      Runs engine (place ++ rest) ⟨now, locals.set index.toNat (word32 count), stack⟩ post ↔
        Runs engine rest
          ⟨now, locals.set index.toNat (word32 count), word32 (dest + count) :: stack⟩ post)
    (continues : Runs engine rest ⟨putBytes memory dest (bytesOf text),
      locals.set index.toNat (word32 (bytesOf text).length), stack⟩ post) :
    Runs engine (copyTo index limit slot place ++ rest) ⟨memory, locals, stack⟩ post := by
  have small := string.small pages
  have size : memory.size ≤ 2 ^ 30 := by
    have most := engine.small
    rw [Memory.size, page]
    omega
  refine runs_countTo (bytesOf text).length
    (fun count now held => now = putBytes memory dest ((bytesOf text).take count) ∧
      held = locals.set index.toNat (word32 count))
    (by omega) indexIn ⟨rfl, rfl⟩ ?_ ?_ ?_
  · rintro count now held ⟨-, rfl⟩
    exact ⟨List.getElem?_set_self indexIn, limits count⟩
  · rintro count now held below ⟨rfl, rfl⟩
    have there : StringAt (putBytes memory dest ((bytesOf text).take count)) source text := by
      constructor
      · exact read_putBytes_other (by omega) string.characters
      · exact read_putBytes_other (by omega) string.count
      · rw [size_putBytes]
        exact string.inside
      · intro index within
        rw [bytes_putBytes_other (by omega)]
        exact string.bytes index within
      · exact string.reserved
    have counted : (locals.set index.toNat (word32 count))[index.toNat]? =
        some (word32 count) := List.getElem?_set_self indexIn
    rw [seq_cons, seq_cons, seq_cons, seq_nil, List.append_nil, List.append_assoc,
      List.append_assoc, places]
    rw [runs_byteAt there (by rw [pages_putBytes]; exact pages) (slots count) counted below,
      List.cons_append, List.nil_append, runs_i32Store8 (by omega)]
    simp only [UInt32.reduceToNat, Nat.add_zero]
    rw [if_pos (by rw [size_putBytes]; omega), runs_nextTurn counted, List.set_set]
    refine ⟨?_, rfl⟩
    have length : ((bytesOf text).take count).length = count := by
      rw [List.length_take]
      omega
    rw [← List.take_append_getElem below, putBytes_concat, length]
  · rintro now held ⟨rfl, rfl⟩
    rw [List.take_length]
    exact continues

end Deed.Runtime
