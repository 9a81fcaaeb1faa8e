import Deed.Driver.Fix
import Deed.Driver.Manifest
import Deed.Library.BinarySearch

/-!
# Positions of an editor

`crates/deed-lsp/src/position.rs`: the byte offsets of the compiler and the lines and UTF-16
columns of an editor.  A text is the list of its characters; numbers are 32 bits, and whether
sums of them are checked is up to the build.  Nothing is a panic.
-/

namespace Deed.Lsp

open Deed.Lexer (bytes slice)
open Deed.Driver.Fixing (isCharBoundary)
open Deed.Driver.Manifests (plus)
open Deed.Library (binarySearch)

abbrev Text : Type := List Char

/-- A zero based line and UTF-16 column. -/
structure Position where
  line : UInt32
  character : UInt32
deriving DecidableEq, Repr

/-- The line starts of one document. -/
structure Lines where
  starts : List UInt32
  length : UInt32
deriving DecidableEq, Repr

/-- `char::len_utf16`. -/
def lenUtf16 (c : Char) : Nat := if c.toNat < 0x10000 then 1 else 2

/-- The UTF-16 units of some characters. -/
def units (text : Text) : Nat := (text.map lenUtf16).sum

/-- What follows each line break from an offset on.  No other character has its byte. -/
def startsFrom (checks : Bool) : Text → Nat → Option (List UInt32)
  | [], _ => some []
  | c :: text, offset =>
      if c = '\n' then do
        let start ← plus checks offset.toUInt32 1
        let later ← startsFrom checks text (offset + c.utf8Size)
        some (start :: later)
      else startsFrom checks text (offset + c.utf8Size)

namespace Lines

/-- The line starts of a text. -/
def of (checks : Bool) (text : Text) : Option Lines := do
  let starts ← startsFrom checks text 0
  some ⟨0 :: starts, (bytes text).toUInt32⟩

/-- The loop of `offset` over the characters of a line, from a byte of the text. -/
def walk (checks : Bool) (character : UInt32) (stop : Nat) : Text → Nat → UInt32 → Option Nat
  | [], _, _ => some stop
  | c :: rest, offset, passed =>
      if character ≤ passed then some offset
      else do
        let passed ← plus checks passed (lenUtf16 c).toUInt32
        walk checks character stop rest (offset + c.utf8Size) passed

/-- The byte offset a position names. -/
def offset (checks : Bool) (lines : Lines) (text : Text) (position : Position) : Option UInt32 :=
  if lines.starts.length ≤ position.line.toNat then some lines.length
  else do
    let start ← lines.starts[position.line.toNat]?
    let stop := (lines.starts[position.line.toNat + 1]?).elim (bytes text) UInt32.toNat
    let inside ← slice text start.toNat stop
    let found ← walk checks position.character stop inside start.toNat 0
    some found.toUInt32

/-- The line that an offset is on. -/
def lineOf (lines : Lines) (offset : UInt32) : Option Nat :=
  match binarySearch (lines.starts.map UInt32.toNat) offset.toNat with
  | .ok exact => some exact
  | .error next => if next = 0 then none else some (next - 1)

/-- The loop of `position` back to where a character begins. -/
def backTo (text : Text) (start : Nat) : Nat → Nat
  | 0 => 0
  | stop + 1 =>
      if start < stop + 1 ∧ isCharBoundary text (stop + 1) = false then backTo text start stop
      else stop + 1

/-- The position a byte offset lands on. -/
def position (lines : Lines) (text : Text) (offset : UInt32) : Option Position := do
  let offset := min offset lines.length
  let line ← lines.lineOf offset
  let start ← lines.starts[line]?
  let inside ← slice text start.toNat (backTo text start.toNat offset.toNat)
  some ⟨line.toUInt32, (units inside).toUInt32⟩

end Lines

end Deed.Lsp
