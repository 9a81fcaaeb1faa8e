import Deed.Lexer.Token
import Deed.Library.Doubles
import Deed.Rt.Platform

/-!
# Messages as JSON

`crates/deed-lsp/src/json.rs`: JSON values, the text that they are written as, and the parser.
A text is the list of its characters.  The parser's position is kept beside what is left of the
text, and its calls and loops are given a measure: nothing is a parser that the measure cuts
short.
-/

namespace Deed.Lsp.Wire

open Deed.Lexer (isAsciiDigit toDigit)
open Deed.Library (Double nearest)

abbrev Text : Type := List Char

inductive Json where
  | null
  | bool (value : Bool)
  | number (value : Double)
  | string (value : Text)
  | array (items : List Json)
  /-- The fields in the order that they came in, repeated names included. -/
  | object (fields : List (Text × Json))

mutual

/-- Whether two values are equal, numbers as numbers. -/
def same : Json → Json → Bool
  | .null, .null => true
  | .bool value, .bool value' => value == value'
  | .number value, .number value' => value.equal value'
  | .string value, .string value' => value == value'
  | .array items, .array items' => sameItems items items'
  | .object fields, .object fields' => sameFields fields fields'
  | _, _ => false

def sameItems : List Json → List Json → Bool
  | [], [] => true
  | item :: items, item' :: items' => same item item' && sameItems items items'
  | _, _ => false

def sameFields : List (Text × Json) → List (Text × Json) → Bool
  | [], [] => true
  | (name, value) :: fields, (name', value') :: fields' =>
      name == name' && same value value' && sameFields fields fields'
  | _, _ => false

end

/-! ## Writing -/

/-- `{}` of an integer. -/
def decimal (n : Int) : Text :=
  if n < 0 then '-' :: Nat.toDigits 10 n.natAbs else Nat.toDigits 10 n.natAbs

/-- `{:04x}` of what is below `0x20`. -/
def hex4 (code : Nat) : Text :=
  ['0', '0', Nat.digitChar (code / 16), Nat.digitChar (code % 16)]

/-- A character of a string. -/
def writeChar (c : Char) : Text :=
  if c = '"' then ['\\', '"']
  else if c = '\\' then ['\\', '\\']
  else if c = '\n' then ['\\', 'n']
  else if c = '\r' then ['\\', 'r']
  else if c = '\t' then ['\\', 't']
  else if c.toNat < 0x20 then '\\' :: 'u' :: hex4 c.toNat
  else [c]

def writeString (value : Text) : Text := '"' :: value.flatMap writeChar ++ ['"']

section Writing

-- `{}` of a number that is not a whole one.
variable (display : Double → Text)

/-- Integers are written as integers. -/
def writeNumber (value : Double) : Text :=
  if value.whole then decimal value.toInt64.toInt else display value

mutual

def write : Json → Text
  | .null => "null".toList
  | .bool true => "true".toList
  | .bool false => "false".toList
  | .number value => writeNumber display value
  | .string value => writeString value
  | .array items => '[' :: writeItems false items ++ [']']
  | .object fields => '{' :: writeFields false fields ++ ['}']

/-- Items, each but the very first after a comma. -/
def writeItems : Bool → List Json → Text
  | _, [] => []
  | later, item :: items =>
      (if later then [','] else []) ++ write item ++ writeItems true items

def writeFields : Bool → List (Text × Json) → Text
  | _, [] => []
  | later, (name, value) :: fields =>
      (if later then [','] else []) ++ writeString name ++ ':' :: write value ++
        writeFields true fields

end

end Writing

/-! ## Numbers -/

/-- The number that digits stand for. -/
def natural (digits : Text) : Nat :=
  digits.foldl (fun value c => value * 10 + (toDigit c 10).getD 0) 0

/-- The sign that a text may begin with, and what follows it. -/
def signed : Text → Bool × Text
  | '-' :: rest => (true, rest)
  | '+' :: rest => (false, rest)
  | text => (false, text)

/-- The exponent after `e`. -/
def exponent (text : Text) : Option Int :=
  let (negative, digits) := signed text
  if digits = [] ∨ digits.all isAsciiDigit = false then none
  else some (if negative then -(natural digits : Int) else natural digits)

/-- `str::parse::<f64>`, on a text without letters but for that of an exponent. -/
def parseF64 (text : Text) : Option Double :=
  let (negative, text) := signed text
  let whole := text.takeWhile isAsciiDigit
  let rest := text.dropWhile isAsciiDigit
  let (fraction, rest) : Text × Text :=
    match rest with
    | '.' :: rest => (rest.takeWhile isAsciiDigit, rest.dropWhile isAsciiDigit)
    | _ => ([], rest)
  let power : Option Int :=
    match rest with
    | [] => some 0
    | c :: rest => if c = 'e' ∨ c = 'E' then exponent rest else none
  if whole = [] ∧ fraction = [] then none
  else
    power.map fun power : Int => nearest negative
      ((natural (whole ++ fraction) : ℚ) * (10 : ℚ) ^ (power - (fraction.length : Int)))

/-! ## The parser -/

/-- What was wrong with a message. -/
structure ParseError where
  message : Text
  offset : Nat

structure Parser where
  /-- The characters from the position on. -/
  rest : Text
  pos : Nat

/-- What one call of the parser gives. -/
abbrev Read (α : Type) : Type := Except ParseError (α × Parser)

namespace Parser

def error (parser : Parser) (message : Text) : ParseError := ⟨message, parser.pos⟩

def peek (parser : Parser) : Option Char := parser.rest.head?

def bump (parser : Parser) : Option Char × Parser :=
  match parser.rest with
  | [] => (none, parser)
  | c :: rest => (some c, ⟨rest, parser.pos + 1⟩)

/-- Past the characters of a kind. -/
def skipWhile (kind : Char → Bool) (parser : Parser) : Parser :=
  ⟨parser.rest.dropWhile kind, parser.pos + (parser.rest.takeWhile kind).length⟩

def isSpace (c : Char) : Bool := c == ' ' || c == '\t' || c == '\n' || c == '\r'

def skipSpace (parser : Parser) : Parser := parser.skipWhile isSpace

def expect (expected : Char) (parser : Parser) : Read Unit :=
  if parser.peek = some expected then .ok ((), parser.bump.2)
  else .error (parser.error ("expected `".toList ++ expected :: "`".toList))

/-- The characters of a word, as many of them as are left. -/
def literalFrom (word : Text) (value : Json) : Text → Parser → Read Json
  | [], parser => .ok (value, parser)
  | expected :: left, parser =>
      let (found, parser) := parser.bump
      if found ≠ some expected then
        .error (parser.error ("expected `".toList ++ word ++ "`".toList))
      else literalFrom word value left parser

def literal (word : Text) (value : Json) (parser : Parser) : Read Json :=
  literalFrom word value word parser

/-- Past one character of a kind, where there is one. -/
def skipOne (kind : Char → Bool) (parser : Parser) : Parser :=
  if parser.peek.any kind then parser.bump.2 else parser

/-- Past what may stand after a mark, where there is the mark. -/
def skipMark (mark : Char → Bool) (after : Parser → Parser) (parser : Parser) : Parser :=
  if parser.peek.any mark then after parser.bump.2 else parser

def number (parser : Parser) : Read Json :=
  let start := parser
  let parser := (parser.skipOne (· == '-')).skipWhile isAsciiDigit
  let parser := parser.skipMark (· == '.') (skipWhile isAsciiDigit)
  let parser := parser.skipMark (fun c => c == 'e' || c == 'E') fun parser =>
    (parser.skipOne fun c => c == '+' || c == '-').skipWhile isAsciiDigit
  match parseF64 (start.rest.take (parser.pos - start.pos)) with
  | some value => .ok (.number value, parser)
  | none => .error (parser.error "not a number".toList)

/-- So many hexadecimal digits, on top of a value. -/
def hexDigits : Nat → Nat → Parser → Read Nat
  | 0, value, parser => .ok (value, parser)
  | count + 1, value, parser =>
      let (found, parser) := parser.bump
      match found.bind (toDigit · 16) with
      | none => .error (parser.error "expected four hex digits".toList)
      | some digit => hexDigits count (value * 16 + digit) parser

/-- `char::from_u32`. -/
def charFromU32 (code : Nat) : Option Char :=
  if code.isValidChar then some (Char.ofNat code) else none

/-- The character of a code, where there is one. -/
def characterOf (code : Nat) (parser : Parser) : Read Char :=
  match charFromU32 code with
  | some c => .ok (c, parser)
  | none => .error (parser.error "not a character".toList)

/-- `\uXXXX`, and the surrogate pair that follows it when there is one. -/
def unicodeEscape (parser : Parser) : Except ParseError (Char × Parser) := do
  let (high, parser) ← hexDigits 4 0 parser
  if ¬(0xD800 ≤ high ∧ high < 0xDC00) then characterOf high parser
  else
    let (first, afterFirst) := parser.bump
    let (second, afterSecond) := afterFirst.bump
    -- The second character is not read where the first is another one.
    if first ≠ some '\\' then
      .error (afterFirst.error "a high surrogate needs a low one after it".toList)
    else if second ≠ some 'u' then
      .error (afterSecond.error "a high surrogate needs a low one after it".toList)
    else
      let (low, parser) ← hexDigits 4 0 afterSecond
      if ¬(0xDC00 ≤ low ∧ low < 0xE000) then
        .error (parser.error "expected a low surrogate".toList)
      else characterOf (0x10000 + (high - 0xD800) * 2 ^ 10 + (low - 0xDC00)) parser

def escape (parser : Parser) : Read Char :=
  let (found, parser) := parser.bump
  match found with
  | some '"' => .ok ('"', parser)
  | some '\\' => .ok ('\\', parser)
  | some '/' => .ok ('/', parser)
  | some 'b' => .ok (Char.ofNat 8, parser)
  | some 'f' => .ok (Char.ofNat 12, parser)
  | some 'n' => .ok ('\n', parser)
  | some 'r' => .ok ('\r', parser)
  | some 't' => .ok ('\t', parser)
  | some 'u' => unicodeEscape parser
  | _ => .error (parser.error "unknown escape sequence".toList)

/-- The characters of a string up to its quote, on top of those so far. -/
def stringLoop : Nat → Parser → Text → Option (Read Text)
  | 0, _, _ => none
  | fuel + 1, parser, out =>
      let (found, parser) := parser.bump
      match found with
      | none => some (.error (parser.error "unterminated string".toList))
      | some '"' => some (.ok (out, parser))
      | some '\\' =>
          match escape parser with
          | .error e => some (.error e)
          | .ok (c, parser) => stringLoop fuel parser (out ++ [c])
      | some c => stringLoop fuel parser (out ++ [c])

/-- What follows a call, where it gave a value. -/
def andThen {α β : Type} (call : Option (Read α)) (next : α → Parser → Option (Read β)) :
    Option (Read β) :=
  match call with
  | none => none
  | some (.error e) => some (.error e)
  | some (.ok (value, parser)) => next value parser

def string (fuel : Nat) (parser : Parser) : Option (Read Text) :=
  andThen (some (parser.expect '"')) fun _ parser => stringLoop fuel parser []

mutual

def value : Nat → Parser → Option (Read Json)
  | 0, _ => none
  | fuel + 1, parser =>
      match parser.peek with
      | none => some (.error (parser.error "expected a value".toList))
      | some 'n' => some (parser.literal "null".toList .null)
      | some 't' => some (parser.literal "true".toList (.bool true))
      | some 'f' => some (parser.literal "false".toList (.bool false))
      | some '"' => andThen (string fuel parser) fun text parser => some (.ok (.string text, parser))
      | some '[' => array fuel parser
      | some '{' => object fuel parser
      | some c =>
          if c = '-' ∨ isAsciiDigit c = true then some parser.number
          else some (.error (parser.error ("unexpected character `".toList ++ c :: "`".toList)))

def array : Nat → Parser → Option (Read Json)
  | 0, _ => none
  | fuel + 1, parser =>
      andThen (some (parser.expect '[')) fun _ parser =>
        let parser := parser.skipSpace
        if parser.peek = some ']' then some (.ok (.array [], parser.bump.2))
        else arrayLoop fuel parser []

def arrayLoop : Nat → Parser → List Json → Option (Read Json)
  | 0, _, _ => none
  | fuel + 1, parser, items =>
      andThen (value fuel parser.skipSpace) fun item parser =>
        let (found, parser) := parser.skipSpace.bump
        if found = some ',' then arrayLoop fuel parser (items ++ [item])
        else if found = some ']' then some (.ok (.array (items ++ [item]), parser))
        else some (.error (parser.error "expected `,` or `]`".toList))

def object : Nat → Parser → Option (Read Json)
  | 0, _ => none
  | fuel + 1, parser =>
      andThen (some (parser.expect '{')) fun _ parser =>
        let parser := parser.skipSpace
        if parser.peek = some '}' then some (.ok (.object [], parser.bump.2))
        else objectLoop fuel parser []

def objectLoop : Nat → Parser → List (Text × Json) → Option (Read Json)
  | 0, _, _ => none
  | fuel + 1, parser, fields =>
      andThen (string fuel parser.skipSpace) fun name parser =>
        andThen (some (parser.skipSpace.expect ':')) fun _ parser =>
          andThen (value fuel parser.skipSpace) fun found parser =>
            let fields := fields ++ [(name, found)]
            let (found, parser) := parser.skipSpace.bump
            if found = some ',' then objectLoop fuel parser fields
            else if found = some '}' then some (.ok (.object fields, parser))
            else some (.error (parser.error "expected `,` or `\x7d`".toList))

end

end Parser

/-- The calls that a text of a length can take. -/
def measure (length : Nat) : Nat := 3 * length + 1

/-- The value of a text. -/
def parse (text : Text) : Option (Except ParseError Json) :=
  let parser := (Parser.mk text 0).skipSpace
  (parser.value (measure text.length)).map fun read => do
    let (value, parser) ← read
    let parser := parser.skipSpace
    if parser.rest ≠ [] then .error (parser.error "trailing text after the value".toList)
    else return value

end Deed.Lsp.Wire
