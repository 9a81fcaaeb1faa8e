import Deed.Fetch.Sha256
import Deed.Lexer.Token
import Deed.Library.Lines
import Deed.Rt.Platform

/-!
# Lock files

`crates/deed-cli/src/lock.rs`: the text that records what went into a build, and how it is read
back.  Texts are lists of their characters.
-/

namespace Deed.Cli.Lock

open Deed.Fetch (hex)
open Deed.Lexer (fromStrRadix)
open Deed.Library (splitInclusive stripLast stripPrefix splitOnce)
open Deed.Rt (asBytes fromUtf8)

abbrev Text : Type := List Char

/-- The 32 bytes that some content is known by. -/
abbrev Digest : Type := {bytes : List UInt8 // bytes.length = 32}

/-- A single entry in a lock file. -/
structure Entry where
  digest : Digest
  path : Text
deriving DecidableEq

def HEADER : Text := "deed lock v1".toList

/-- The line of an entry. -/
def line (entry : Entry) : Text :=
  "sha256:".toList ++ (hex entry.digest.1).toList ++ "  ".toList ++ entry.path

/-- The text that is written for some entries. -/
def write (entries : List Entry) : Text :=
  HEADER ++ '\n' :: entries.flatMap fun entry => line entry ++ ['\n']

/-- A line without what ends it. -/
def unended (line : Text) : Text :=
  if line.getLast? = some '\n' then stripLast '\r' line.dropLast else line

/-- `str::lines`. -/
def lines (text : Text) : List Text := (splitInclusive '\n' text).map unended

/-- `u8::from_str_radix` to the base of 16. -/
def fromHex : Text → Option Nat
  | '+' :: digit :: digits => fromStrRadix (2 ^ 8 - 1) (digit :: digits) 16
  | digits => fromStrRadix (2 ^ 8 - 1) digits 16

/-- The bytes that pairs of characters stand for. -/
def unhex : (bytes : List UInt8) → Option {digest : List UInt8 // digest.length = bytes.length / 2}
  | high :: low :: rest => do
      let pair ← fromUtf8 [high, low]
      let byte ← fromHex pair
      let digest ← unhex rest
      return ⟨byte.toUInt8 :: digest.1, by rw [List.length_cons, digest.2]; grind⟩
  | [_] => some ⟨[], by simp⟩
  | [] => some ⟨[], rfl⟩

/-- What is wrong with a line. -/
def refusal (i : Nat) (what : String) : Text :=
  "line ".toList ++ (toString (i + 2)).toList ++ ": ".toList ++ what.toList

/-- One line after the header. -/
def parseLine (i : Nat) (line : Text) : Except Text (Option Entry) :=
  if line = [] then .ok none
  else
    match stripPrefix "sha256:".toList line with
    | none => .error (refusal i "expected `sha256:` prefix")
    | some rest =>
        match splitOnce "  ".toList rest with
        | none => .error (refusal i "expected two spaces after hash")
        | some (hexPart, rest) =>
            if sized : (asBytes hexPart).length = 64 then
              match unhex (asBytes hexPart) with
              | none => .error (refusal i "invalid hex")
              | some digest => .ok (some ⟨⟨digest.1, by rw [digest.2, sized]⟩, rest⟩)
            else .error (refusal i "hash is not 64 hex digits")

/-- The lines after the header, on top of the entries so far. -/
def parseLines : List Text → Nat → List Entry → Except Text (List Entry)
  | [], _, entries => .ok entries
  | line :: rest, i, entries => do
      match ← parseLine i line with
      | none => parseLines rest (i + 1) entries
      | some entry => parseLines rest (i + 1) (entries ++ [entry])

/-- The entries of a lock file. -/
def parse (text : Text) : Except Text (List Entry) :=
  let text := (stripPrefix ['\uFEFF'] text).getD text
  let header := (lines text).head?.getD []
  if header = HEADER then parseLines (lines text).tail 0 []
  else .error ("not a deed lock file (expected `".toList ++ HEADER ++ "`)".toList)

/-! ## What a lock file is -/

/-- A line of a digest in hexadecimal digits and a path. -/
def EntryLine (line : Text) : Prop :=
  ∃ hash path, line = "sha256:".toList ++ hash ++ "  ".toList ++ path ∧ hash.length = 64 ∧
    ∀ c ∈ hash, Lexer.isAsciiHexdigit c = true

/-- A text is a header and lines of one kind, blank ones apart, after a byte order mark or
none. -/
def IsLock (kind : Text → Prop) (text : Text) : Prop :=
  ∃ rest, lines ((stripPrefix ['\uFEFF'] text).getD text) = HEADER :: rest ∧
    ∀ line ∈ rest, line = [] ∨ kind line

/-- What is written is read back. -/
def ReadsBack (entries : List Entry) : Prop := parse (write entries) = .ok entries

/-- A text is accepted exactly where it is a lock file. -/
def Accepts (text : Text) : Prop :=
  (∃ entries, parse text = .ok entries) ↔ IsLock EntryLine text

end Deed.Cli.Lock
