import Deed.Wasm.Encode

/-!
# The pieces of the runtime

The layout of values in memory, from `crates/deed-codegen/src/layout.rs`, and the
pieces of code that the helpers of `crates/deed-codegen/src/runtime.rs` are put
together from.  A function that pushes to a vector of instructions in the source
answers the instructions here.
-/

namespace Deed.Runtime

open Deed.Wasm

/-- Where the bump pointer lives. -/
def BUMP : Nat := 0

/-- The width of every field, element and tag. -/
def WORD : Nat := 8

/-- Where value allocation starts, above the reserved words and the frame stack. -/
def HEAP_START : Nat := 40 + 8192

/-- How many bytes an aggregate of this shape takes. -/
def aggregateSize (tagged : Bool) (fields : Nat) : Nat :=
  ((if tagged then 1 else 0) + fields) * WORD

/-- How many bytes a list of this many elements takes. -/
def listSize (elements : Nat) : Nat := WORD + elements * WORD

/-- How many bytes a string of this many bytes takes, rounded up to a word. -/
def stringSize (bytes : Nat) : Nat := 2 * WORD + (bytes + 7) / WORD * WORD

/-- A string's bytes start after its two headers. -/
def TEXT : Nat := 2 * WORD

/-- A list's elements start after its length. -/
def ELEMENTS : Nat := WORD

/-- The tag of a `Result` that holds an answer. -/
def OK : Int64 := 0

/-- The tag of a `Result` that holds a refusal. -/
def ERR : Int64 := 1

/-- Where a `Result` keeps what it holds. -/
def PAYLOAD : Nat := WORD

/-- How many bytes a WebAssembly page is. -/
def PAGE : Nat := 64 * 1024

/-- Pieces of code, one after the other. -/
def seq (pieces : List (List Ins)) : List Ins := pieces.flatten

@[simp]
theorem seq_nil : seq [] = [] := rfl

@[simp]
theorem seq_cons (piece : List Ins) (pieces : List (List Ins)) :
    seq (piece :: pieces) = piece ++ seq pieces := rfl

/-- The byte length of the string whose address is in `slot`, as an `i32`. -/
def byteLength (slot : UInt32) : List Ins :=
  [.localGet slot, .i32WrapI64, .i64Load (.ofNat WORD), .i32WrapI64]

/-- Whether the bump pointer is past the end of the memory. -/
def pastTheEnd : List Ins :=
  [.i32Const (.ofNat BUMP), .i64Load 0, .memorySize, .i64ExtendI32S,
    .i64Const (.ofNat PAGE), .i64Mul, .i64GtS]

/-- Grows the memory until the bump pointer is inside it, a page at a time. -/
def growToFit : List Ins :=
  seq [
    pastTheEnd,
    [.if_ none
      [.loop none (seq [
        pastTheEnd,
        [.i32Eqz, .brIf 1, .i32Const 1, .memoryGrow, .i32Const (-1), .i32Eq,
          .if_ none [.unreachable] [], .br 0]])]
      []]]

/-- Reserves as many bytes as `size` pushes, leaving the address in `out`. -/
def allocate (out : UInt32) (size : List Ins) : List Ins :=
  seq [
    [.i32Const (.ofNat BUMP), .i64Load 0, .i32WrapI64, .localSet out,
      .i32Const (.ofNat BUMP), .localGet out, .i64ExtendI32S],
    size,
    [.i64Add, .i64Store 0],
    growToFit]

/-- Pushes the room a string of as many bytes as `bytes` holds takes, headers and padding
both. -/
def stringRoom (bytes : UInt32) : List Ins :=
  [.i64Const (.ofNat TEXT), .localGet bytes, .i64ExtendI32S, .i64Add,
    .i64Const (.ofNat WORD), .localGet bytes, .i64ExtendI32S, .i64Const (.ofNat WORD),
    .i64RemS, .i64Sub, .i64Const (.ofNat WORD), .i64RemS, .i64Add]

/-- Pushes the room a list of as many elements as `count` holds takes. -/
def listRoom (count : UInt32) : List Ins :=
  [.i64Const (.ofNat WORD), .localGet count, .i64ExtendI32S, .i64Const (.ofNat WORD),
    .i64Mul, .i64Add]

/-- The address of the element at `index` of the list whose address is in the `i32` local
`base`. -/
def elementAt (base index : UInt32) : List Ins :=
  [.localGet base, .i32Const (.ofNat ELEMENTS), .i32Add, .localGet index,
    .i32Const (.ofNat WORD), .i32Mul, .i32Add]

/-- `if` with nothing after it, which is how a helper answers early. -/
def when_ (condition then_ : List Ins) : List Ins := seq [condition, [.if_ none then_ []]]

/-- Whether the byte `byte` pushes carries on a character rather than starting one. -/
def isContinuation (byte : List Ins) : List Ins :=
  seq [byte, [.i32Const 128, .i32GeS], byte, [.i32Const 192, .i32LtS, .i32And]]

/-- Adds one to a counter. -/
def increment (counter : UInt32) : List Ins :=
  [.localGet counter, .i32Const 1, .i32Add, .localSet counter]

/-- Walks `counter` while `keep` holds, with `body` in between. -/
def walkWhile (counter : UInt32) (keep body : List Ins) : List Ins :=
  [.block none [.loop none
    (seq [keep, [.i32Eqz, .brIf 1], body, increment counter, [.br 0]])]]

/-- Builds a `Result` around what `value` pushes, and answers with it. -/
def result (out : UInt32) (tag : Int64) (value : List Ins) : List Ins :=
  seq [
    allocate out [.i64Const (.ofNat (aggregateSize true 1))],
    [.localGet out, .i64Const tag, .i64Store 0, .localGet out],
    value,
    [.i64Store (.ofNat PAYLOAD), .localGet out, .i64ExtendI32S, .return_]]

/-- The address of the byte at `index` of the string in `slot`. -/
def textAt (slot index : UInt32) : List Ins :=
  [.localGet slot, .i32WrapI64, .i32Const (.ofNat TEXT), .i32Add, .localGet index,
    .i32Add]

/-- The byte at `index` of the string in `slot`. -/
def byteAt (slot index : UInt32) : List Ins := seq [textAt slot index, [.i32Load8U 0]]

/-- Runs `body` with `counter` going from zero up to `limit`. -/
def countTo (counter limit : UInt32) (body : List Ins) : List Ins :=
  [.i32Const 0, .localSet counter,
    .block none [.loop none (seq [
      [.localGet counter, .localGet limit, .i32GeS, .brIf 1],
      body,
      increment counter,
      [.br 0]])]]

/-- What a helper needs from the module around it: the index of every other helper, and
where a string literal is placed. -/
structure Where (Helper : Type) where
  index : Helper → UInt32
  place : String → UInt32

/-- The address of a string literal, placed in the data section. -/
def Where.text {Helper : Type} (at_ : Where Helper) (literal : String) : Ins :=
  .i64Const (.ofNat (at_.place literal).toNat)

def Where.call {Helper : Type} (at_ : Where Helper) (helper : Helper) : Ins :=
  .call (at_.index helper)

end Deed.Runtime
