import Deed.Runtime.Code

/-!
# The helpers of the runtime

The functions that `crates/deed-codegen/src/runtime.rs` writes into a module, each
as the locals beyond its parameters and its body.
-/

namespace Deed.Runtime

open Deed.Wasm

/-- One of the functions the backend writes into a module. -/
inductive Helper where
  /-- Whether two strings hold the same characters. -/
  | sameText
  /-- Which of two strings comes first: -1, 0 or 1. -/
  | textOrder
  /-- A new string holding one after the other. -/
  | joinedText
  /-- The bytes of a string between two offsets, as a string of its own. -/
  | textSlice
  /-- Where one string sits inside another at or after an offset, or -1. -/
  | textSearch
  /-- A number written out in decimal. -/
  | numberText
  /-- A number read out of text, or a `Result` saying it was not one. -/
  | textNumber
  /-- The pieces of a string, separated. -/
  | textPieces
  /-- A list of strings, put back together with something between them. -/
  | piecesText
  /-- A string with the four whitespace characters taken off each end. -/
  | trimmedText
  /-- The twenty-six letters, raised. -/
  | raisedText
  /-- The twenty-six letters, lowered. -/
  | loweredText
  /-- The element of a list at an index, or a `Result` saying it is not there. -/
  | listElement
  /-- A list with one more element on the end. -/
  | listExtended
  /-- A list holding the same value a number of times. -/
  | listFilled
  /-- An empty list with room already reserved for a number of elements. -/
  | listRoom
  /-- A copy of a list with room reserved on the end of it. -/
  | listRoomFrom
  /-- The same list, one longer, written where it stands. -/
  | listAppended
  /-- A string taken into a running hash. -/
  | hashedText
  /-- The memory, grown until the bump pointer is inside it. -/
  | grownMemory
deriving DecidableEq, Repr

/-- The locals beyond a helper's parameters, and its body. -/
abbrev Compiled : Type := List ValType × List Ins

namespace Code

/-- Answers `value` when `condition` holds. -/
def answerWhen (condition : List Ins) (value : Ins) : List Ins :=
  when_ condition [value, .return_]

/-- `str_eq(a, b) -> Bool`: the lengths first, and then the bytes. -/
def strEq : Compiled :=
  ([.i32, .i32], seq [
    byteLength 0,
    [.localSet 2],
    byteLength 1,
    answerWhen [.localGet 2, .i32Ne] (.i32Const 0),
    countTo 3 2 (answerWhen (seq [byteAt 0 3, byteAt 1 3, [.i32Ne]]) (.i32Const 0)),
    [.i32Const 1, .return_]])

/-- `H = (H ^ what) * PRIME`, one step of the running hash in local 2. -/
def absorb (what : List Ins) : List Ins :=
  seq [[.localGet 2], what, [.i64Xor, .i64Const 1099511628211, .i64Mul, .localSet 2]]

/-- `str_hash(hash, text) -> hash`: the length in characters, and then the bytes. -/
def hashedText : Compiled :=
  ([.i64, .i32, .i32], seq [
    [.localGet 0, .localSet 2],
    absorb [.localGet 1, .i32WrapI64, .i64Load 0],
    byteLength 1,
    [.localSet 3],
    countTo 4 3 (absorb (seq [byteAt 1 4, [.i64ExtendI32S]])),
    [.localGet 2, .return_]])

/-- `str_cmp(a, b) -> Int`: byte order, and the shorter one first when all shared bytes
match. -/
def strCmp : Compiled :=
  ([.i32, .i32, .i32, .i32], seq [
    byteLength 0,
    [.localSet 2],
    byteLength 1,
    [.localSet 3, .localGet 2, .localSet 4],
    when_ [.localGet 3, .localGet 2, .i32LtS] [.localGet 3, .localSet 4],
    countTo 5 4 (seq [
      answerWhen (seq [byteAt 0 5, byteAt 1 5, [.i32LtS]]) (.i64Const (-1)),
      answerWhen (seq [byteAt 0 5, byteAt 1 5, [.i32GtS]]) (.i64Const 1)]),
    answerWhen [.localGet 2, .localGet 3, .i32LtS] (.i64Const (-1)),
    answerWhen [.localGet 2, .localGet 3, .i32GtS] (.i64Const 1),
    [.i64Const 0, .return_]])

/-- The characters and the bytes of a string under construction. -/
def headers (out : UInt32) (characters bytes : List Ins) : List Ins :=
  seq [[.localGet out], characters, [.i64Store 0, .localGet out], bytes,
    [.i64Store (.ofNat WORD)]]

/-- The address of the byte of `out` at the sum of some locals. -/
def placeAt (out : UInt32) : List UInt32 → List Ins
  | [] => [.localGet out, .i32Const (.ofNat TEXT), .i32Add]
  | index :: indices => seq [placeAt out indices, [.localGet index, .i32Add]]

/-- The address in `out` as the word a value travels in. -/
def answer (out : UInt32) : List Ins := [.localGet out, .i64ExtendI32S, .return_]

/-- `str_concat(a, b) -> String`. -/
def strConcat : Compiled :=
  ([.i32, .i32, .i32, .i32, .i32], seq [
    byteLength 0,
    [.localSet 2],
    byteLength 1,
    [.localSet 3, .localGet 2, .localGet 3, .i32Add, .localSet 4],
    allocate 5 (stringRoom 4),
    headers 5
      [.localGet 0, .i32WrapI64, .i64Load 0, .localGet 1, .i32WrapI64, .i64Load 0, .i64Add]
      [.localGet 4, .i64ExtendI32S],
    countTo 6 2 (seq [placeAt 5 [6], byteAt 0 6, [.i32Store8 0]]),
    countTo 6 3 (seq [placeAt 5 [6, 2], byteAt 1 6, [.i32Store8 0]]),
    answer 5])

/-- Counts the digits of the negative number in 2, of which there is at least one. -/
def countDigits : List Ins :=
  [.block none [.loop none (seq [
    increment 3,
    [.localGet 2, .i64Const 10, .i64DivS, .localSet 2, .localGet 2, .i64Eqz, .brIf 1,
      .br 0]])]]

/-- Writes the digits of the negative number in 2, from the end back. -/
def writeDigits : List Ins :=
  [.block none [.loop none (seq [
    placeAt 5 [6],
    [.i32Const 48, .i64Const 0, .localGet 2, .i64Const 10, .i64RemS, .i64Sub, .i32WrapI64,
      .i32Add, .i32Store8 0, .localGet 2, .i64Const 10, .i64DivS, .localSet 2, .localGet 6,
      .i32Const 1, .i32Sub, .localSet 6, .localGet 2, .i64Eqz, .brIf 1, .br 0]])]]

/-- `to_string(n) -> String`: the digits come out of a negative number, because the
smallest `Int` has no positive counterpart. -/
def numberText : Compiled :=
  ([.i64, .i64, .i32, .i32, .i32, .i32, .i32], seq [
    [.localGet 0, .i64Const 0, .i64LtS, .localSet 4, .localGet 0, .localSet 1],
    when_ [.localGet 4, .i32Eqz] [.i64Const 0, .localGet 0, .i64Sub, .localSet 1],
    [.i32Const 0, .localSet 3, .localGet 1, .localSet 2],
    countDigits,
    [.localGet 3, .localGet 4, .i32Add, .localSet 7],
    allocate 5 (stringRoom 7),
    headers 5 [.localGet 7, .i64ExtendI32S] [.localGet 7, .i64ExtendI32S],
    when_ [.localGet 4] (seq [placeAt 5 [], [.i32Const 45, .i32Store8 0]]),
    [.localGet 7, .i32Const 1, .i32Sub, .localSet 6, .localGet 1, .localSet 2],
    writeDigits,
    answer 5])

/-- The list whose address is the parameter 0: its address as an `i32`, and its length. -/
def openList (address length : UInt32) : List Ins :=
  [.localGet 0, .i32WrapI64, .localSet address, .localGet address, .i64Load 0,
    .i32WrapI64, .localSet length]

/-- Copies the elements of one list to the front of another. -/
def copyElements (from_ out index count : UInt32) : List Ins :=
  countTo index count
    (seq [elementAt out index, elementAt from_ index, [.i64Load 0, .i64Store 0]])

/-- A count as an `i32`, where less than nothing is nothing. -/
def narrowCount (count narrow : UInt32) : List Ins :=
  seq [
    [.localGet count, .i32WrapI64, .localSet narrow],
    when_ [.localGet count, .i64Const 0, .i64LtS] [.i32Const 0, .localSet narrow]]

/-- `push(xs, x) -> List<T>`: a new list rather than a longer one. -/
def listExtended : Compiled :=
  ([.i32, .i32, .i32, .i32, .i32], seq [
    openList 2 3,
    [.localGet 3, .i32Const 1, .i32Add, .localSet 6],
    allocate 4 (listRoom 6),
    [.localGet 4, .localGet 6, .i64ExtendI32S, .i64Store 0],
    copyElements 2 4 5 3,
    elementAt 4 3,
    [.localGet 1, .i64Store 0],
    answer 4])

/-- An empty list with room for `count` elements already reserved. -/
def listWithRoom : Compiled :=
  ([.i32, .i32], seq [
    narrowCount 0 1,
    allocate 2 (listRoom 1),
    [.localGet 2, .i64Const 0, .i64Store 0],
    answer 2])

/-- A copy of `xs` with room for `extra` more elements after it. -/
def listWithRoomFrom : Compiled :=
  ([.i32, .i32, .i32, .i32, .i32], seq [
    openList 2 3,
    narrowCount 1 4,
    [.localGet 4, .localGet 3, .i32Add, .localSet 4],
    allocate 5 (listRoom 4),
    copyElements 2 5 6 3,
    [.localGet 5, .localGet 3, .i64ExtendI32S, .i64Store 0],
    answer 5])

/-- The same list, one longer, written where it stands. -/
def listAppended : Compiled :=
  ([.i32, .i32], seq [
    openList 2 3,
    elementAt 2 3,
    [.localGet 1, .i64Store 0, .localGet 2, .localGet 3, .i32Const 1, .i32Add,
      .i64ExtendI32S, .i64Store 0, .localGet 0, .return_]])

/-- `repeat(value, count) -> List<T>`. -/
def listFilled : Compiled :=
  ([.i32, .i32, .i32], seq [
    narrowCount 1 2,
    allocate 3 (listRoom 2),
    [.localGet 3, .localGet 2, .i64ExtendI32S, .i64Store 0],
    countTo 4 2 (seq [elementAt 3 4, [.localGet 0, .i64Store 0]]),
    answer 3])

/-- The byte of the string in 0 at the sum of two locals. -/
def byteFrom (start index : UInt32) : List Ins :=
  [.localGet 0, .i32WrapI64, .i32Const (.ofNat TEXT), .i32Add, .localGet start, .i32Add,
    .localGet index, .i32Add, .i32Load8U 0]

/-- `str_slice(s, from, to) -> String`, in bytes. -/
def textSlice : Compiled :=
  ([.i32, .i32, .i32, .i32, .i32], seq [
    [.localGet 1, .i32WrapI64, .localSet 3, .localGet 2, .i32WrapI64, .localGet 3, .i32Sub,
      .localSet 4, .i32Const 0, .localSet 7],
    allocate 5 (stringRoom 4),
    [.localGet 5, .localGet 4, .i64ExtendI32S, .i64Store (.ofNat WORD)],
    countTo 6 4 (seq [
      placeAt 5 [6],
      byteFrom 3 6,
      [.i32Store8 0],
      when_ (seq [isContinuation (byteFrom 3 6), [.i32Eqz]]) (increment 7)]),
    [.localGet 5, .localGet 7, .i64ExtendI32S, .i64Store 0],
    answer 5])

/-- Whether the needle in 1 is at the local 5 of the string in 0, left in 7. -/
def compareAt : List Ins :=
  seq [
    [.i32Const 1, .localSet 7],
    countTo 6 4 (seq [
      byteFrom 5 6,
      byteAt 1 6,
      [.i32Ne],
      when_ [] [.i32Const 0, .localSet 7]])]

/-- `str_find(s, needle, from) -> Int`, or -1. -/
def textSearch : Compiled :=
  ([.i32, .i32, .i32, .i32, .i32], seq [
    byteLength 0,
    [.localSet 3],
    byteLength 1,
    [.localSet 4, .localGet 2, .i32WrapI64, .localSet 5],
    walkWhile 5 [.localGet 5, .localGet 3, .localGet 4, .i32Sub, .i32LeS] (seq [
      compareAt,
      when_ [.localGet 7] [.localGet 5, .i64ExtendI32S, .return_]]),
    [.i64Const (-1), .return_]])

/-- Whether the byte of the string in 0 at `index` is one of the four characters. -/
def white (index : UInt32) : List Ins :=
  seq [
    byteAt 0 index, [.i32Const 32, .i32Eq],
    byteAt 0 index, [.i32Const 9, .i32Eq, .i32Or],
    byteAt 0 index, [.i32Const 13, .i32Eq, .i32Or],
    byteAt 0 index, [.i32Const 10, .i32Eq, .i32Or]]

/-- Copies the string in `from_` to where the local 9 says the answer has got to. -/
def copyPiece (from_ : UInt32) : List Ins :=
  seq [
    byteLength from_,
    [.localSet 11],
    countTo 10 11 (seq [placeAt 6 [10, 9], byteAt from_ 10, [.i32Store8 0]]),
    [.localGet 9, .localGet 11, .i32Add, .localSet 9]]

/-- Adds a length of the separator to a sum, once for every gap between two pieces. -/
def addGaps (sum : UInt32) (length : List Ins) : List Ins :=
  seq [[.localGet sum], length,
    [.localGet 3, .i32Const 1, .i32Sub, .i32Mul, .i32Add, .localSet sum]]

/-- Measures one piece: its bytes into 4, and its characters into 5. -/
def measurePiece : List Ins :=
  seq [
    elementAt 2 7,
    [.i64Load 0, .localSet 8, .localGet 4],
    byteLength 8,
    [.i32Add, .localSet 4, .localGet 5, .localGet 8, .i32WrapI64, .i64Load 0, .i32WrapI64,
      .i32Add, .localSet 5]]

/-- `join(pieces, separator) -> String`: a walk to measure, and one to write. -/
def piecesText : Compiled :=
  ([.i32, .i32, .i32, .i32, .i32, .i32, .i64, .i32, .i32, .i32], seq [
    openList 2 3,
    [.i32Const 0, .localSet 4, .i32Const 0, .localSet 5],
    countTo 7 3 measurePiece,
    when_ [.localGet 3, .i32Const 0, .i32GtS] (seq [
      addGaps 4 (byteLength 1),
      addGaps 5 [.localGet 1, .i32WrapI64, .i64Load 0, .i32WrapI64]]),
    allocate 6 (stringRoom 4),
    headers 6 [.localGet 5, .i64ExtendI32S] [.localGet 4, .i64ExtendI32S],
    [.i32Const 0, .localSet 9],
    countTo 7 3 (seq [
      when_ [.localGet 7, .i32Const 0, .i32GtS] (copyPiece 1),
      elementAt 2 7,
      [.i64Load 0, .localSet 8],
      copyPiece 8]),
    answer 6])

/-- `upper(s)` and `lower(s)`, the twenty-six letters and nothing else: the letters from
`low` to `high`, moved by `shift`. -/
def shiftLetters (low high shift : Int32) : Compiled :=
  ([.i32, .i32, .i32, .i32], seq [
    byteLength 0,
    [.localSet 1],
    allocate 2 (stringRoom 1),
    headers 2 [.localGet 0, .i32WrapI64, .i64Load 0] [.localGet 1, .i64ExtendI32S],
    countTo 3 1 (seq [
      byteAt 0 3,
      [.localSet 4],
      when_
        [.localGet 4, .i32Const low, .i32GeS, .localGet 4, .i32Const high, .i32LeS, .i32And]
        [.localGet 4, .i32Const shift, .i32Add, .localSet 4],
      placeAt 2 [3],
      [.localGet 4, .i32Store8 0]]),
    answer 2])

def casedText (raise : Bool) : Compiled :=
  if raise then shiftLetters 97 122 (-32) else shiftLetters 65 90 32

variable (at_ : Where Helper)

/-- `at(xs, i) -> Result<T, String>`. -/
def listElement : Compiled :=
  ([.i32, .i64, .i32, .i64, .i32], seq [
    [.localGet 0, .i32WrapI64, .localSet 2, .localGet 2, .i64Load 0, .localSet 3],
    when_ [.localGet 1, .i64Const 0, .i64LtS, .localGet 1, .localGet 3, .i64GeS, .i32Or]
      (seq [
        [at_.text "index ", .localGet 1, at_.call .numberText, at_.call .joinedText,
          at_.text " is outside a list of ", at_.call .joinedText, .localGet 3,
          at_.call .numberText, at_.call .joinedText, .localSet 5],
        result 4 ERR [.localGet 5]]),
    [.localGet 1, .i32WrapI64, .localSet 6],
    result 4 OK (seq [elementAt 2 6, [.i64Load 0]])])

/-- Puts the piece of the string in 0 between two locals into the list in 5. -/
def putPiece (first last : UInt32) : List Ins :=
  seq [
    elementAt 5 8,
    [.localGet 0, .localGet first, .i64ExtendI32S, .localGet last, .i64ExtendI32S,
      at_.call .textSlice, .i64Store 0]]

/-- The pieces of a string when the separator is empty: its characters. -/
def characters : List Ins :=
  seq [
    [.i32Const 0, .localSet 4],
    countTo 9 2 (when_ (seq [isContinuation (byteAt 0 9), [.i32Eqz]]) (increment 4)),
    allocate 5 (listRoom 4),
    [.localGet 5, .localGet 4, .i64ExtendI32S, .i64Store 0, .i32Const 0, .localSet 8],
    countTo 9 2 (when_ (seq [isContinuation (byteAt 0 9), [.i32Eqz]]) (seq [
      [.localGet 9, .i32Const 1, .i32Add, .localSet 10],
      walkWhile 10
        (seq [[.localGet 10, .localGet 2, .i32LtS], isContinuation (byteAt 0 10),
          [.i32And]]) [],
      putPiece at_ 9 10,
      increment 8])),
    answer 5]

/-- Looks for the separator in 1 from the local 6 on. -/
def findNext : List Ins :=
  [.localGet 0, .localGet 1, .localGet 6, .i64ExtendI32S, at_.call .textSearch,
    .i32WrapI64]

/-- `split(text, separator) -> List<String>`: a walk to count the pieces, and one to cut
them. -/
def textPieces : Compiled :=
  ([.i32, .i32, .i32, .i32, .i32, .i32, .i32, .i32, .i32], seq [
    byteLength 0,
    [.localSet 2],
    byteLength 1,
    [.localSet 3],
    when_ [.localGet 3, .i32Eqz] (characters at_),
    [.i32Const 1, .localSet 4, .i32Const 0, .localSet 6,
      .block none [.loop none (seq [
        findNext at_,
        [.localTee 7, .i32Const 0, .i32LtS, .brIf 1],
        increment 4,
        [.localGet 7, .localGet 3, .i32Add, .localSet 6, .br 0]])]],
    allocate 5 (listRoom 4),
    [.localGet 5, .localGet 4, .i64ExtendI32S, .i64Store 0, .i32Const 0, .localSet 8,
      .i32Const 0, .localSet 6],
    countTo 8 4 (seq [
      findNext at_,
      [.localSet 7],
      when_ [.localGet 7, .i32Const 0, .i32LtS] [.localGet 2, .localSet 7],
      putPiece at_ 6 7,
      [.localGet 7, .localGet 3, .i32Add, .localSet 6]]),
    answer 5])

/-- `trim(s) -> String`, the four characters and not the Unicode table. -/
def trimmedText : Compiled :=
  ([.i32, .i32, .i32, .i32], seq [
    byteLength 0,
    [.localSet 1, .i32Const 0, .localSet 2, .localGet 1, .localSet 3],
    walkWhile 2 (seq [[.localGet 2, .localGet 3, .i32LtS], white 2, [.i32And]]) [],
    -- From the other end, which counts down, so the loop is written out.
    [.block none [.loop none (seq [
      [.localGet 3, .localGet 2, .i32LeS, .brIf 1, .localGet 3, .i32Const 1, .i32Sub,
        .localSet 4],
      white 4,
      [.i32Eqz, .brIf 1, .localGet 4, .localSet 3, .br 0]])],
      .localGet 0, .localGet 2, .i64ExtendI32S, .localGet 3, .i64ExtendI32S,
      at_.call .textSlice, .return_]])

/-- Answers that the text in 0 is not a number. -/
def refuse : List Ins :=
  seq [
    [at_.text "\x60", .localGet 0, at_.call .joinedText, at_.text "\x60 is not a number",
      at_.call .joinedText, .localSet 7],
    result 6 ERR [.localGet 7]]

/-- Steps over a sign character, which may set the mark in 3. -/
def sign (character : Int32) (mark : Bool) : List Ins :=
  when_
    (seq [
      [.localGet 2, .localGet 1, .i32LtS],
      byteAt 0 2,
      [.i32Const character, .i32Eq, .i32And]])
    (seq [if mark then [.i32Const 1, .localSet 3] else [], increment 2])

/-- One digit of the text in 0, taken into the negative accumulator in 4. -/
def digit : List Ins :=
  seq [
    byteAt 0 2,
    [.localSet 5],
    when_ [.localGet 5, .i32Const 48, .i32LtS, .localGet 5, .i32Const 57, .i32GtS, .i32Or]
      (refuse at_),
    when_ [.localGet 4, .i64Const (-922337203685477580), .i64LtS] (refuse at_),
    [.localGet 4, .i64Const 10, .i64Mul, .localSet 4],
    when_
      [.localGet 4, .i64Const (-9223372036854775808), .localGet 5, .i32Const 48, .i32Sub,
        .i64ExtendI32S, .i64Add, .i64LtS]
      (refuse at_),
    [.localGet 4, .localGet 5, .i32Const 48, .i32Sub, .i64ExtendI32S, .i64Sub, .localSet 4]]

/-- `to_int(s) -> Result<Int, String>`: accumulated negatively, so that the smallest `Int`
is a number this can read, and checked before each step rather than after. -/
def textNumber : Compiled :=
  ([.i32, .i32, .i32, .i64, .i32, .i32, .i64], seq [
    byteLength 0,
    [.localSet 1, .i32Const 0, .localSet 2, .i32Const 0, .localSet 3, .i64Const 0,
      .localSet 4],
    sign 45 true,
    sign 43 false,
    when_ [.localGet 2, .localGet 1, .i32GeS] (refuse at_),
    walkWhile 2 [.localGet 2, .localGet 1, .i32LtS] (digit at_),
    when_
      [.localGet 3, .i32Eqz, .localGet 4, .i64Const (-9223372036854775808), .i64Eq,
        .i32And]
      (refuse at_),
    when_ [.localGet 3, .i32Eqz] [.i64Const 0, .localGet 4, .i64Sub, .localSet 4],
    result 6 OK [.localGet 4]])

end Code

/-- The parameters of a helper and what it answers. -/
def Helper.signature : Helper → FuncType
  | .sameText => ⟨[.i64, .i64], [.i32]⟩
  | .textOrder | .joinedText | .textPieces | .piecesText | .listElement | .listExtended
  | .listFilled | .listRoomFrom | .listAppended | .hashedText => ⟨[.i64, .i64], [.i64]⟩
  | .textSlice | .textSearch => ⟨[.i64, .i64, .i64], [.i64]⟩
  | .numberText | .textNumber | .trimmedText | .raisedText | .listRoom | .loweredText =>
      ⟨[.i64], [.i64]⟩
  | .grownMemory => ⟨[], []⟩

/-- The helpers this one calls, so that emitting it emits them too. -/
def Helper.needs : Helper → List Helper
  | .listElement => [.numberText, .joinedText]
  | .textNumber => [.joinedText]
  | .textPieces => [.textSlice, .textSearch]
  | .trimmedText => [.textSlice]
  | _ => []

def Helper.compile (at_ : Where Helper) : Helper → Compiled
  | .sameText => Code.strEq
  | .textOrder => Code.strCmp
  | .joinedText => Code.strConcat
  | .textSlice => Code.textSlice
  | .textSearch => Code.textSearch
  | .numberText => Code.numberText
  | .textNumber => Code.textNumber at_
  | .textPieces => Code.textPieces at_
  | .piecesText => Code.piecesText
  | .trimmedText => Code.trimmedText at_
  | .raisedText => Code.casedText true
  | .loweredText => Code.casedText false
  | .listElement => Code.listElement at_
  | .listExtended => Code.listExtended
  | .listFilled => Code.listFilled
  | .listRoom => Code.listWithRoom
  | .listRoomFrom => Code.listWithRoomFrom
  | .listAppended => Code.listAppended
  | .hashedText => Code.hashedText
  | .grownMemory => ([], growToFit)

end Deed.Runtime
