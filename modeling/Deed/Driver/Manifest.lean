import Deed.Lexer.Token
import Deed.Library.Lines

/-!
# The manifest

`crates/deed-driver/src/manifest.rs`: the components and fetched modules that a `deed.manifest`
file declares, one a line.  A text is the list of its characters; offsets are 32 bits, and
whether sums of them are checked is up to the build.
-/

namespace Deed.Driver.Manifests

open Deed.Lexer (Span Diagnostic FileId bytes isWhitespace isAsciiHexdigit)
open Deed.Library (splitInclusive stripLast stripPrefix trim words)

abbrev Text : Type := List Char

namespace Codes

def UNKNOWN_DIRECTIVE : String := "DEED7001"
def MISSING_COMPONENT_PATH : String := "DEED7002"
def MISSING_MODULE_SOURCE : String := "DEED7003"
def MISSING_MODULE_HASH : String := "DEED7004"
def BAD_MODULE_HASH : String := "DEED7005"

end Codes

/-- A component root declared by a manifest. -/
structure ComponentRoot where
  path : Text
deriving DecidableEq, Repr

/-- A module declared by where its bytes are and what they hash to. -/
structure FetchedModule where
  url : Text
  hash : Text
  span : Span
deriving DecidableEq, Repr

structure Manifest where
  components : List ComponentRoot
  modules : List FetchedModule
  diagnostics : List Diagnostic
deriving DecidableEq, Repr

namespace Manifest

def empty : Manifest := ⟨[], [], []⟩

def report (manifest : Manifest) (diagnostic : Diagnostic) : Manifest :=
  { manifest with diagnostics := manifest.diagnostics ++ [diagnostic] }

end Manifest

/-- A text between backquotes. -/
def quoted (text : Text) : String := "\x60" ++ String.ofList text ++ "\x60"

/-! ## Spans -/

/-- A sum of offsets, which panics past 32 bits in a build that checks and wraps in another. -/
def plus (checks : Bool) (a b : UInt32) : Option UInt32 :=
  if checks = true ∧ 2 ^ 32 ≤ a.toNat + b.toNat then none else some (a + b)

section Build

variable (checks : Bool)

/-- The range of so many bytes after so many others. -/
def spanAt (lineStart : UInt32) (leading length : Nat) : Option Span := do
  let start ← plus checks lineStart leading.toUInt32
  let again ← plus checks lineStart leading.toUInt32
  let stop ← plus checks again length.toUInt32
  Span.new start.toNat stop.toNat

/-- The bytes that `trim_start` takes off a line. -/
def leadingOf (line : Text) : Nat := bytes line - bytes (line.dropWhile isWhitespace)

/-- Span covering the entire trimmed content of a line. -/
def lineSpan (line : Text) (lineStart : UInt32) : Option Span :=
  spanAt checks lineStart (leadingOf line) (bytes (trim isWhitespace line))

/-- Span covering one keyword at the start of the trimmed content of a line. -/
def directiveSpan (line : Text) (lineStart : UInt32) (keyword : Text) : Option Span :=
  spanAt checks lineStart (leadingOf line) (bytes keyword)

/-! ## Directives -/

def component : Text := "component".toList

def module_ : Text := "module".toList

def sha256 : Text := "sha256:".toList

section Reports

variable (file : FileId) (span : Span)

def missingPath : Diagnostic :=
  (Diagnostic.error Codes.MISSING_COMPONENT_PATH file span "\x60component\x60 needs a path"
    |>.withPrimaryLabel "path missing here").withNote
    ("write the directory that is the root of the external component, " ++
      "relative to this manifest file")

def unknownDirective (word : Text) : Diagnostic :=
  (Diagnostic.error Codes.UNKNOWN_DIRECTIVE file span
      ("unknown manifest directive " ++ quoted word)
    |>.withPrimaryLabel "not a recognized directive").withNote
    ("a \x60deed.manifest\x60 has \x60component <path>\x60 and " ++
      "\x60module <url> sha256:<digest>\x60")

def missingSource : Diagnostic :=
  (Diagnostic.error Codes.MISSING_MODULE_SOURCE file span
      "\x60module\x60 needs a location and a hash"
    |>.withPrimaryLabel "nothing to fetch").withNote
    "write \x60module <url> sha256:<digest>\x60"

def missingHash (url : Text) : Diagnostic :=
  (Diagnostic.error Codes.MISSING_MODULE_HASH file span (quoted url ++ " was given no hash")
    |>.withPrimaryLabel "no hash").withNote
    ("a location says where bytes were and a hash says what they are; without " ++
      "the second a build cannot be repeated, so it is not optional")

def tooMuch : Diagnostic :=
  (Diagnostic.error Codes.UNKNOWN_DIRECTIVE file span
      "\x60module\x60 takes a location and a hash, and nothing else"
    |>.withPrimaryLabel "too much on this line").withNote
    "one module a line, so a diff shows which one changed"

def otherAlgorithm (hash : Text) : Diagnostic :=
  (Diagnostic.error Codes.BAD_MODULE_HASH file span
      (quoted hash ++ " does not name an algorithm this understands")
    |>.withPrimaryLabel "expected \x60sha256:\x60").withNote
    ("SHA-256 is the only one, and it is spelled out so that a second one could " ++
      "be told from it rather than guessed at by length")

def notADigest (digest : Text) : Diagnostic :=
  (Diagnostic.error Codes.BAD_MODULE_HASH file span (quoted digest ++ " is not a SHA-256 digest")
    |>.withPrimaryLabel "not sixty-four hexadecimal digits").withNote
    "a digest that is nearly right is a digest nothing will ever match"

def notLowercase (digest : Text) : Diagnostic :=
  (Diagnostic.error Codes.BAD_MODULE_HASH file span (quoted digest ++ " is not written in lowercase")
    |>.withPrimaryLabel "uppercase digits").withNote
    ("the cache is keyed by these characters, so two spellings of one digest " ++
      "would be two entries for one set of bytes")

end Reports

variable (file : FileId)

/-- Reads `module <url> sha256:<digest>`. -/
def parseModule (line : Text) (lineStart : UInt32) (rest : Text) (manifest : Manifest) :
    Option Manifest := do
  let span ← lineSpan checks line lineStart
  match words isWhitespace rest with
  | [] =>
      let span ← directiveSpan checks line lineStart module_
      some (manifest.report (missingSource file span))
  | [url] => some (manifest.report (missingHash file span url))
  | [url, hash] =>
      match stripPrefix sha256 hash with
      | none => some (manifest.report (otherAlgorithm file span hash))
      | some digest =>
          if bytes digest ≠ 64 ∨ digest.all isAsciiHexdigit = false then
            some (manifest.report (notADigest file span digest))
          else if digest.any Char.isUpper then
            some (manifest.report (notLowercase file span digest))
          else some { manifest with modules := manifest.modules ++ [⟨url, digest, span⟩] }
  | _ :: _ :: _ :: _ => some (manifest.report (tooMuch file span))

/-- What follows the word `module`: nothing, or a blank and more. -/
def moduleRest (trimmed : Text) : Option Text :=
  (stripPrefix module_ trimmed).filter fun rest => rest.head?.all isWhitespace

/-- One turn of the loop over the lines. -/
def parseLine (rawLine : Text) (lineStart : UInt32) (manifest : Manifest) : Option Manifest :=
  let line := stripLast '\r' (stripLast '\n' rawLine)
  let trimmed := trim isWhitespace line
  if trimmed = [] ∨ trimmed.head? = some '#' then some manifest
  else
    match stripPrefix component trimmed with
    | some rest =>
        let path := trim isWhitespace rest
        if path = [] then
          (directiveSpan checks line lineStart component).map fun span =>
            manifest.report (missingPath file span)
        else some { manifest with components := manifest.components ++ [⟨path⟩] }
    | none =>
        match moduleRest trimmed with
        | some rest => parseModule checks file line lineStart rest manifest
        | none =>
            (lineSpan checks line lineStart).map fun span => manifest.report
              (unknownDirective file span ((words isWhitespace trimmed).head?.getD trimmed))

/-- The loop over the lines, from an offset. -/
def parseLines : List Text → UInt32 → Manifest → Option Manifest
  | [], _, manifest => some manifest
  | rawLine :: lines, offset, manifest => do
      let next ← plus checks offset (bytes rawLine).toUInt32
      let manifest ← parseLine checks file rawLine offset manifest
      parseLines lines next manifest

/-- A text without the mark that it may begin with, and the bytes of the mark. -/
def withoutMark (text : Text) : Text × Nat :=
  if text.head? = some '\uFEFF' then (text.tail, 3) else (text, 0)

/-- Parses the text of a manifest; nothing is a panic. -/
def parseManifest (text : Text) : Option Manifest :=
  let (rest, offset) := withoutMark text
  parseLines checks file (splitInclusive '\n' rest) offset.toUInt32 .empty

end Build

end Deed.Driver.Manifests
