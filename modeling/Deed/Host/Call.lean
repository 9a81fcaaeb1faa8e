import Deed.Wasm.Heap
import Deed.Runtime.Code
import Deed.Rt.Platform

/-!
# What a host is handed when a module calls it

`HostCall` of `crates/deed-codegen/src/run.rs`: strings read out of the module's memory,
and strings, lists and aggregates put into it at its own bump pointer.  An index out of
a slice's range and an overflowing addition end the host.
-/

namespace Deed.Host

open Deed.Wasm Deed.Rt

/-- How a call ends without an answer. -/
inductive Ended where
  /-- The host turned the call down, with its reason. -/
  | refused (why : Text)
  /-- The host itself stopped. -/
  | panicked
deriving DecidableEq

/-- `Value::as_i64` -/
def asI64 : Value → Int64
  | .i32 value => value.toInt64
  | .i64 value => value

/-- What the host stops at when it is not there. -/
def expect {α : Type} : Option α → Except Ended α
  | some value => .ok value
  | none => .error .panicked

/-- A `u32` that a computation of sizes ends in, unless it overflows. -/
def size32 (size : Nat) : Except Ended Nat :=
  if size < 2 ^ 32 then .ok size else .error .panicked

/-- `layout::string_size` -/
def stringSize (bytes : Nat) : Except Ended Nat := size32 (Runtime.stringSize (bytes % 2 ^ 32))

/-- `layout::list_size` -/
def listSize (elements : Nat) : Except Ended Nat := size32 (Runtime.listSize (elements % 2 ^ 32))

/-- `layout::aggregate_size` -/
def aggregateSize (tagged : Bool) (fields : Nat) : Except Ended Nat :=
  size32 (Runtime.aggregateSize tagged (fields % 2 ^ 32))

/-- A word as the number that an address or a length is. -/
def unsigned (word : Int64) : Nat := word.toUInt64.toNat

/-- Bytes put into memory, where there is a place. -/
def copy (memory : Memory) (address : Nat) (bytes : List UInt8) : Option Memory :=
  if inside : address + bytes.length ≤ memory.size then
    some {
      bytes := fun place =>
        if address ≤ place ∧ place < address + bytes.length then
          bytes.getD (place - address) 0
        else memory.bytes place
      pages := memory.pages
      blank := by
        intro place beyond
        rw [if_neg fun within => Nat.not_lt.2 (inside.trans beyond) within.2]
        exact memory.blank place beyond }
  else none

/-- `HostCall::text` at an address. -/
def text (memory : Memory) (argument : Option Value) : Except Ended (Option Text) :=
  match argument with
  | none => .ok none
  | some argument =>
      if (asI64 argument).toInt ≤ 0 then .ok none
      else
        let address := (asI64 argument).toInt.toNat
        match memory.load (address + 8) with
        | none => .ok none
        | some word =>
            let length := unsigned word
            if 2 ^ 64 ≤ address + 16 + length then .error .panicked
            else if address + 16 + length ≤ memory.size then
              .ok (fromUtf8 (memory.slice (address + 16) length))
            else .ok none

/-- `HostCall::allocate` -/
def allocate (memory : Memory) (size : Nat) : Option (Nat × Memory) := do
  let place := unsigned (← memory.load Runtime.BUMP)
  let after := place + size
  if 2 ^ 64 ≤ after then none
  else if place = 0 ∨ memory.size < after then none
  else
    let memory ← memory.store Runtime.BUMP 8 after
    some (place, memory)

/-- A word put into the memory at an address that is in it. -/
def store (memory : Memory) (address : Nat) (word : Int64) : Except Ended Memory :=
  expect (memory.store address 8 word.toUInt64.toNat)

/-- Words put into the memory one after the other. -/
def storeAll (memory : Memory) (address : Nat) : List Int64 → Except Ended Memory
  | [] => .ok memory
  | word :: words => do
      let memory ← store memory address word
      storeAll memory (address + Runtime.WORD) words

/-- An address as the module gets it. -/
def address (place : Nat) : Value := .i64 (Int64.ofNat place)

/-- `HostCall::write_text` -/
def writeText (memory : Memory) (text : Text) : Except Ended (Option (Value × Memory)) := do
  let bytes := asBytes text
  let size ← stringSize bytes.length
  match allocate memory size with
  | none => .ok none
  | some (place, memory) =>
      let memory ← store memory place (Int64.ofNat text.length)
      let memory ← store memory (place + 8) (Int64.ofNat bytes.length)
      let memory ← expect (copy memory (place + 16) bytes)
      .ok (some (address place, memory))

/-- `HostCall::write_list` -/
def writeList (memory : Memory) (items : List Value) :
    Except Ended (Option (Value × Memory)) := do
  let size ← listSize items.length
  match allocate memory size with
  | none => .ok none
  | some (place, memory) =>
      let memory ← store memory place (Int64.ofNat items.length)
      let memory ← storeAll memory (place + Runtime.ELEMENTS) (items.map asI64)
      .ok (some (address place, memory))

/-- `HostCall::write_aggregate` -/
def writeAggregate (memory : Memory) (tag : Option Int64) (fields : List Value) :
    Except Ended (Option (Value × Memory)) := do
  let size ← aggregateSize tag.isSome fields.length
  match allocate memory size with
  | none => .ok none
  | some (place, memory) =>
      let words := tag.toList ++ fields.map asI64
      let memory ← storeAll memory place words
      .ok (some (address place, memory))

end Deed.Host
