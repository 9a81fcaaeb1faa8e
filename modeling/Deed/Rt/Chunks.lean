import Deed.Lexer.Token
import Deed.Rt.Platform

/-!
# Chunked answers

`dechunk` of `crates/deed-rt/src/http.rs`: a body that a server sent in chunks, put back
together.  A `usize` has 64 bits, and a sum that none holds ends the process.
-/

namespace Deed.Rt

open Deed.Library
open Deed.Lexer (fromStrRadix toDigit)

/-- How putting a body together stops. -/
inductive Fault where
  /-- The answer is not what it should be. -/
  | malformed (why : Text)
  | panics
deriving DecidableEq, Repr

/-- The first index of `needle` in `haystack`. -/
def find (haystack needle : List UInt8) : Option Nat :=
  (splitOnce needle haystack).map fun halves => halves.1.length

def CRLF : List UInt8 := [0x0d, 0x0a]

/-- `usize::from_str_radix` to the base of 16. -/
def fromHex : List Char → Option Nat
  | '+' :: digit :: digits => fromStrRadix (2 ^ 64 - 1) (digit :: digits) 16
  | digits => fromStrRadix (2 ^ 64 - 1) digits 16

/-- The length that a chunk's header gives.  Extensions after a semicolon say nothing about
it. -/
def sizeOf (header : Text) : Option Nat := fromHex (trim whitespace (header.takeWhile (· ≠ ';')))

/-- The length in the header that some bytes begin with, and what follows the header. -/
def header (body : List UInt8) : Option (Nat × List UInt8) :=
  (find body CRLF).bind fun end_ =>
    (fromUtf8 (body.take end_)).bind fun header =>
      (sizeOf header).map fun size => (size, body.drop (end_ + 2))

/-- The loop of `dechunk`; nothing where there are fewer turns than chunks. -/
def dechunkLoop (malformed : Text) :
    Nat → List UInt8 → List UInt8 → Option (Except Fault (List UInt8))
  | 0, _, _ => none
  | turns + 1, body, out =>
      match header body with
      | none => some (.error (.malformed malformed))
      | some (size, body) =>
          if size = 0 then some (.ok out)
          else if 2 ^ 64 ≤ size + 2 then some (.error .panics)
          -- The chunk and the newline that ends it are asked for together.
          else if body.length < size + 2 then some (.error (.malformed malformed))
          else dechunkLoop malformed turns (body.drop (size + 2)) (out ++ body.take size)

/-- Reassembles a chunked body. -/
def dechunk (body : List UInt8) (address : Text) : Option (Except Fault (List UInt8)) :=
  dechunkLoop ("the chunked answer from \x60".toList ++ address ++
    "\x60 ended in the middle of a chunk".toList) (body.length + 1) body []

end Deed.Rt
