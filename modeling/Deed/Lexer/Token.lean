import Mathlib

/-!
# Tokens and reports

What `crates/deed-lexer` answers with: tokens, comments and diagnostics, each with a byte
range of 32-bit offsets into the source.
-/

namespace Deed.Lexer

/-! ## Spans -/

/-- A half open byte range into one source file. -/
structure Span where
  start : UInt32
  stop : UInt32
deriving DecidableEq, Repr

/-- A range from two positions, cut to 32 bits; one that is reversed then panics. -/
def Span.new (start stop : Nat) : Option Span :=
  if start.toUInt32 ≤ stop.toUInt32 then some ⟨start.toUInt32, stop.toUInt32⟩ else none

/-- An empty span, used to point between two characters. -/
def Span.at (offset : Nat) : Span := ⟨offset.toUInt32, offset.toUInt32⟩

/-! ## Diagnostics -/

namespace Codes

def UNKNOWN_CHARACTER : String := "DEED1001"
def UNTERMINATED_STRING : String := "DEED1002"
def UNTERMINATED_BLOCK_COMMENT : String := "DEED1003"
def UNKNOWN_ESCAPE : String := "DEED1004"
def INTEGER_OUT_OF_RANGE : String := "DEED1005"
def MALFORMED_NUMBER : String := "DEED1006"
def NO_FLOAT_LITERAL : String := "DEED1007"

end Codes

/-- The file a source was added under. -/
abbrev FileId := Nat

/-- A span with something to say about it. -/
structure Label where
  span : Span
  message : String
deriving DecidableEq, Repr

/-- How much a tool should trust a fix. -/
inductive Applicability where
  | machineApplicable
  | maybeIncorrect
deriving DecidableEq, Repr

/-- A single text replacement. -/
structure SuggestedEdit where
  span : Span
  replacement : String
deriving DecidableEq, Repr

structure Fix where
  message : String
  edits : List SuggestedEdit
  applicability : Applicability
deriving DecidableEq, Repr

/-- One problem, at one place; every one of the lexer's is an error. -/
structure Diagnostic where
  code : String
  message : String
  file : FileId
  primary : Label
  secondary : List Label
  notes : List String
  fix_ : Option Fix
deriving DecidableEq, Repr

namespace Diagnostic

def error (code : String) (file : FileId) (span : Span) (message : String) : Diagnostic :=
  ⟨code, message, file, ⟨span, message⟩, [], [], none⟩

def withPrimaryLabel (diagnostic : Diagnostic) (message : String) : Diagnostic :=
  { diagnostic with primary := { diagnostic.primary with message } }

def withSecondary (diagnostic : Diagnostic) (span : Span) (message : String) : Diagnostic :=
  { diagnostic with secondary := diagnostic.secondary ++ [⟨span, message⟩] }

def withNote (diagnostic : Diagnostic) (note : String) : Diagnostic :=
  { diagnostic with notes := diagnostic.notes ++ [note] }

def withFix (diagnostic : Diagnostic) (message : String) (span : Span) (replacement : String)
    (applicability : Applicability) : Diagnostic :=
  { diagnostic with fix_ := some ⟨message, [⟨span, replacement⟩], applicability⟩ }

end Diagnostic

/-! ## Tokens -/

inductive Keyword where
  | module_ | use_ | type_ | record | choice | effect | handler | implements | fn
  | deprecated
  | where_ | uses | ensures | old | unchanged
  | let_ | if_ | else_ | match_ | for_ | in_ | return_ | true_ | false_
  | test | with_ | assert
  | abandon
deriving DecidableEq, Repr

def Keyword.fromIdent (text : String) : Option Keyword :=
  match text with
  | "module" => some .module_
  | "use" => some .use_
  | "type" => some .type_
  | "record" => some .record
  | "choice" => some .choice
  | "effect" => some .effect
  | "handler" => some .handler
  | "implements" => some .implements
  | "fn" => some .fn
  | "deprecated" => some .deprecated
  | "where" => some .where_
  | "uses" => some .uses
  | "ensures" => some .ensures
  | "old" => some .old
  | "unchanged" => some .unchanged
  | "let" => some .let_
  | "if" => some .if_
  | "else" => some .else_
  | "match" => some .match_
  | "for" => some .for_
  | "in" => some .in_
  | "return" => some .return_
  | "true" => some .true_
  | "false" => some .false_
  | "test" => some .test
  | "with" => some .with_
  | "assert" => some .assert
  | "abandon" => some .abandon
  | _ => none

inductive TokenKind where
  | keyword (keyword : Keyword)
  | ident (name : String)
  /-- An integer literal, already decoded. -/
  | int (value : Nat)
  /-- Digits that are exactly one past the largest `Int`. -/
  | intAtLimit
  /-- A string literal with escapes already resolved. -/
  | str (value : String)
  | lParen | rParen | lBrace | rBrace | lBracket | rBracket
  | comma | dot | colon | semi | question | underscore | pipe
  | arrow | fatArrow
  | eq | eqEq | bangEq | bang | lt | le | gt | ge
  | plus | minus | star | slash | percent
  | ampAmp | pipePipe
  /-- Emitted where a token could not be formed. -/
  | error
  | eof
deriving DecidableEq, Repr

structure Token where
  kind : TokenKind
  span : Span
  /-- Whether a newline came between this token and the one before it. -/
  startsLine : Bool
deriving DecidableEq, Repr

/-- `// ...` to the end of the line, or `/* ... */`, which nests. -/
inductive TriviaKind where
  | line
  | block
deriving DecidableEq, Repr

/-- A comment. -/
structure Trivia where
  kind : TriviaKind
  span : Span
deriving DecidableEq, Repr

/-- The result of lexing one file. -/
structure Lexed where
  tokens : List Token
  trivia : List Trivia
  diagnostics : List Diagnostic
deriving DecidableEq, Repr

/-! ## Characters -/

/-- What the standard library says of characters that is a table: the two classes
`char::is_alphabetic` and `char::is_numeric`, and how `escape_debug` spells one. -/
structure Unicode where
  isAlphabetic : Char → Bool
  isNumeric : Char → Bool
  escapeDebug : Char → String

/-- The characters with the property White_Space. -/
def isWhitespace (c : Char) : Bool :=
  (9 ≤ c.toNat && c.toNat ≤ 13) || c.toNat == 0x20 || c.toNat == 0x85 || c.toNat == 0xA0 ||
    c.toNat == 0x1680 || (0x2000 ≤ c.toNat && c.toNat ≤ 0x200A) || c.toNat == 0x2028 ||
    c.toNat == 0x2029 || c.toNat == 0x202F || c.toNat == 0x205F || c.toNat == 0x3000

def Unicode.isAlphanumeric (unicode : Unicode) (c : Char) : Bool :=
  unicode.isAlphabetic c || unicode.isNumeric c

def Unicode.isIdentStart (unicode : Unicode) (c : Char) : Bool :=
  c == '_' || unicode.isAlphabetic c

def Unicode.isIdentContinue (unicode : Unicode) (c : Char) : Bool :=
  c == '_' || unicode.isAlphanumeric c

def isAsciiDigit (c : Char) : Bool := '0' ≤ c && c ≤ '9'

/-- `char::to_digit`. -/
def toDigit (c : Char) (radix : Nat) : Option Nat :=
  let value : Option Nat :=
    if isAsciiDigit c then some (c.toNat - '0'.toNat)
    else if 'a' ≤ c ∧ c ≤ 'z' then some (c.toNat - 'a'.toNat + 10)
    else if 'A' ≤ c ∧ c ≤ 'Z' then some (c.toNat - 'A'.toNat + 10)
    else none
  value.filter fun digit => digit < radix

def isAsciiHexdigit (c : Char) : Bool := (toDigit c 16).isSome

/-- `from_str_radix` on characters without a sign, for a type whose largest value is given. -/
def fromStrRadix (largest : Nat) (digits : List Char) (radix : Nat) : Option Nat :=
  if digits.isEmpty then none
  else
    (digits.foldlM (fun (value : Nat) c =>
      (toDigit c radix).map fun digit => value * radix + digit) 0).filter (· ≤ largest)

/-- `i64::MAX`. -/
def i64Max : Nat := 9223372036854775807

/-! ## Text -/

/-- How many bytes some characters take. -/
def bytes (text : List Char) : Nat := (text.map Char.utf8Size).sum

/-- The first bytes of a text, where a character ends there. -/
def takeBytes : List Char → Nat → Option (List Char)
  | _, 0 => some []
  | [], _ + 1 => none
  | c :: text, count + 1 =>
      if c.utf8Size ≤ count + 1 then (takeBytes text (count + 1 - c.utf8Size)).map (c :: ·)
      else none

/-- What follows the first bytes of a text, where a character ends there. -/
def dropBytes : List Char → Nat → Option (List Char)
  | text, 0 => some text
  | [], _ + 1 => none
  | c :: text, count + 1 =>
      if c.utf8Size ≤ count + 1 then dropBytes text (count + 1 - c.utf8Size) else none

/-- `&text[start..stop]`, which panics where the range is none of the text's. -/
def slice (text : List Char) (start stop : Nat) : Option (List Char) :=
  if start ≤ stop then (dropBytes text start).bind fun rest => takeBytes rest (stop - start)
  else none

end Deed.Lexer
