import Deed.Lexer.Token
import Deed.Library.Lines
import Deed.Rt.Platform

/-!
# URIs of files

`crates/deed-lsp/src/uri.rs`: from a path of this machine to a `file://` URI and back.  A path
is the list of its characters, on a system whose separator is a slash.
-/

namespace Deed.Lsp

open Deed.Lexer (toDigit)
open Deed.Library (stripPrefix words)
open Deed.Rt (asBytes fromUtf8)

namespace Uri

abbrev Text : Type := List Char

/-- Whether a decoded path starts with something like `C:`. -/
def driveLetter (path : Text) : Bool :=
  path.head?.any Char.isAlpha && path.tail.head? == some ':'

/-- A byte of the unreserved set, or one of the two separators. -/
def plain (byte : UInt8) : Bool :=
  let c := Char.ofNat byte.toNat
  c.isAlphanum || c == '-' || c == '.' || c == '_' || c == '~' || c == '/' || c == ':'

/-- A digit of `{:02X}`. -/
def upperHex (digit : Nat) : Char :=
  if digit < 10 then Char.ofNat (0x30 + digit) else Char.ofNat (0x41 + (digit - 10))

/-- One byte of a path in its URI. -/
def escape (byte : UInt8) : Text :=
  if plain byte then [Char.ofNat byte.toNat]
  else ['%', upperHex (byte.toNat / 16), upperHex (byte.toNat % 16)]

/-- Backslashes are separators too. -/
def slashed (path : Text) : Text := path.map fun c => if c = '\\' then '/' else c

/-- The `file://` URI for a path. -/
def fromPath (path : Text) : Text :=
  let text := slashed path
  "file://".toList ++ (if text.head? = some '/' then [] else ['/']) ++
    (asBytes text).flatMap escape

/-- The bytes that escapes stand for. -/
def unescape : List UInt8 → Option (List UInt8)
  | [] => some []
  | byte :: rest =>
      if byte ≠ 0x25 then (unescape rest).map (byte :: ·)
      else
        match rest with
        | high :: low :: rest => do
            let high ← toDigit (Char.ofNat high.toNat) 16
            let low ← toDigit (Char.ofNat low.toNat) 16
            (unescape rest).map ((high * 16 + low).toUInt8 :: ·)
        | _ => none

/-- Decodes `%XX` escapes as bytes, then reads the result as UTF-8. -/
def percentDecode (text : Text) : Option Text := (unescape (asBytes text)).bind fromUtf8

/-- The path a `file://` URI names. -/
def toPath (uri : Text) : Option Text := do
  let path ← stripPrefix "file:///".toList uri
  let decoded ← percentDecode path
  if driveLetter decoded then some decoded else some ('/' :: decoded)

/-- Whether a path is absolute, and its components as paths are compared by: no empty ones, and
no dots but one that a relative path begins with. -/
def components (path : Text) : Bool × List Text :=
  let names := words (· == '/') path
  if path.head? = some '/' then (true, names.filter (· ≠ ['.']))
  else (false, names.take 1 ++ (names.drop 1).filter (· ≠ ['.']))

end Uri

end Deed.Lsp
