import Deed.Lexer.Token

/-!
# The lexer

`crates/deed-lexer/src/lexer.rs`.  The text is kept in two parts, what was read (`before`)
and what was not (`rest`); the position is the length of the first.  A loop takes a number
of turns and answers nothing when they run out; a range that is reversed and a slice off
the text's characters, which panic, answer nothing either.
-/

namespace Deed.Lexer

/-- The lexer at a position of the text. -/
structure Lexer where
  before : List Char
  rest : List Char
  file : FileId
  tokens : List Token
  trivia : List Trivia
  diagnostics : List Diagnostic

namespace Lexer

def src (lexer : Lexer) : List Char := lexer.before ++ lexer.rest

def pos (lexer : Lexer) : Nat := bytes lexer.before

/-- `&self.src[start..stop]`. -/
def text (lexer : Lexer) (start stop : Nat) : Option (List Char) := slice lexer.src start stop

/-! ## Character helpers -/

def peek (lexer : Lexer) : Option Char := lexer.rest.head?

def peekSecond (lexer : Lexer) : Option Char := lexer.rest.tail.head?

def bump (lexer : Lexer) : Option (Char × Lexer) :=
  match lexer.rest with
  | [] => none
  | c :: rest => some (c, { lexer with before := lexer.before ++ [c], rest })

/-- `bump` where the character is not looked at. -/
def skip (lexer : Lexer) : Lexer := lexer.bump.elim lexer Prod.snd

def eat (lexer : Lexer) (expected : Char) : Bool × Lexer :=
  if lexer.peek = some expected then (true, lexer.skip) else (false, lexer)

/-- Reads as long as the characters are of a kind. -/
def bumpWhile (kind : Char → Bool) (lexer : Lexer) : Lexer :=
  { lexer with
    before := lexer.before ++ lexer.rest.takeWhile kind
    rest := lexer.rest.dropWhile kind }

def emit (lexer : Lexer) (diagnostic : Diagnostic) : Lexer :=
  { lexer with diagnostics := lexer.diagnostics ++ [diagnostic] }

/-! ## Trivia -/

def lineComment (lexer : Lexer) : Option Lexer := do
  let start := lexer.pos
  let lexer := lexer.bumpWhile fun c => c != '\n'
  let span ← Span.new start lexer.pos
  some { lexer with trivia := lexer.trivia ++ [⟨.line, span⟩] }

/-- The inside of a block comment, to where it is closed or the text ends; answers how many
are open there. -/
def blockLoop : Nat → Nat → Lexer → Option (Nat × Lexer)
  | 0, _, _ => none
  | turns + 1, depth, lexer =>
      if depth = 0 then some (0, lexer)
      else if lexer.peek = some '/' ∧ lexer.peekSecond = some '*' then
        blockLoop turns (depth + 1) lexer.skip.skip
      else if lexer.peek = some '*' ∧ lexer.peekSecond = some '/' then
        blockLoop turns (depth - 1) lexer.skip.skip
      else if lexer.peek.isSome then blockLoop turns depth lexer.skip
      else some (depth, lexer)

/-- `"*/".repeat(depth)`. -/
def closers (depth : Nat) : String := String.join (List.replicate depth "*/")

def blockComment (lexer : Lexer) : Option Lexer := do
  let start := lexer.pos
  let lexer := lexer.skip.skip
  let (depth, lexer) ← blockLoop (lexer.rest.length + 1) 1 lexer
  if 0 < depth then
    let opening ← Span.new start (start + 2)
    let note := if depth = 1 then "one `*/` is still needed"
      else "block comments nest, so " ++ toString depth ++ " `*/`s are still needed"
    some (lexer.emit ((((Diagnostic.error Codes.UNTERMINATED_BLOCK_COMMENT lexer.file opening
      "unterminated block comment").withPrimaryLabel "this comment is never closed").withNote
        note).withFix "close the comment" (Span.at lexer.pos) (closers depth)
          .machineApplicable))
  else
    let span ← Span.new start lexer.pos
    some { lexer with trivia := lexer.trivia ++ [⟨.block, span⟩] }

def triviaLoop : Nat → Lexer → Option Lexer
  | 0, _ => none
  | turns + 1, lexer =>
      if lexer.peek.any isWhitespace then triviaLoop turns lexer.skip
      else if lexer.peek = some '/' ∧ lexer.peekSecond = some '/' then
        lexer.lineComment.bind (triviaLoop turns)
      else if lexer.peek = some '/' ∧ lexer.peekSecond = some '*' then
        lexer.blockComment.bind (triviaLoop turns)
      else some lexer

/-- Skips whitespace and comments, saying whether a line ended on the way. -/
def skipTrivia (lexer : Lexer) : Option (Bool × Lexer) := do
  let start := lexer.pos
  let lexer ← triviaLoop (lexer.rest.length + 1) lexer
  let skipped ← lexer.text start lexer.pos
  some (skipped.contains '\n', lexer)

variable (unicode : Unicode)

/-! ## Identifiers -/

def ident (start : Nat) (lexer : Lexer) : Option (TokenKind × Lexer) := do
  let lexer := lexer.bumpWhile unicode.isIdentContinue
  let text ← lexer.text start lexer.pos
  if text = ['_'] then some (.underscore, lexer)
  else
    match Keyword.fromIdent (String.ofList text) with
    | some keyword => some (.keyword keyword, lexer)
    | none => some (.ident (String.ofList text), lexer)

/-! ## Numbers -/

/-- The base a letter after a leading zero stands for. -/
def radixOf : Option Char → Option Nat
  | some 'x' => some 16
  | some 'X' => some 16
  | some 'b' => some 2
  | some 'B' => some 2
  | some 'o' => some 8
  | some 'O' => some 8
  | _ => none

/-- The base, where the digits start, and the lexer there. -/
def numberStart (start : Nat) (first : Char) (lexer : Lexer) : Nat × Nat × Lexer :=
  match if first = '0' then radixOf lexer.peek else none with
  | some radix => (radix, lexer.skip.pos, lexer.skip)
  | none => (10, start, lexer)

def digitNote : Nat → String
  | 2 => "binary literals accept `0` and `1`"
  | 8 => "octal literals accept `0` through `7`"
  | 16 => "hexadecimal literals accept `0` through `9` and `a` through `f`, in either case"
  | _ => "Deed has no literal suffixes, so `100u8` should be written `100`"

/-- The offset of the first character of a digit run that is no digit. -/
def findInvalid (radix : Nat) : List Char → Nat → Option Nat
  | [], _ => none
  | c :: digits, offset =>
      if c ≠ '_' ∧ toDigit c radix = none then some offset
      else findInvalid radix digits (offset + c.utf8Size)

def integerOutOfRange (file : FileId) (span : Span) : Diagnostic :=
  ((Diagnostic.error Codes.INTEGER_OUT_OF_RANGE file span
    "integer literal does not fit in `Int`").withPrimaryLabel "too large").withNote
      ("`Int` holds values up to " ++ toString i64Max)

/-- A literal with a decimal point: the whole of it is read, the whole part stands in. -/
def decimalPoint (start radix : Nat) (digits : List Char) (literal : Span) (lexer : Lexer) :
    Option (TokenKind × Lexer) := do
  let lexer := lexer.skip.bumpWhile fun c => unicode.isAlphanumeric c || c == '_'
  let span ← Span.new start lexer.pos
  let text ← lexer.text start lexer.pos
  let whole ← lexer.text start literal.stop.toNat
  let lexer := lexer.emit ((((Diagnostic.error Codes.NO_FLOAT_LITERAL lexer.file span
    ("`" ++ String.ofList text ++
      "` has a decimal point, and there are no float literals")).withPrimaryLabel
        "no literal has this shape").withNote
          "`Int` is the only number, so a quantity with a fraction is counted in its smallest unit: money in cents, a duration in milliseconds").withNote
            ("this is not `" ++ String.ofList whole ++
              "` with a field after it either, because a field name is an identifier"))
  some (.int ((fromStrRadix i64Max digits radix).getD i64Max), lexer)

/-- A literal with a character that is no digit: the digits before it stand in. -/
def invalidDigit (digitsStart radix : Nat) (literal : Span) (badOffset : Nat)
    (lexer : Lexer) : Option (TokenKind × Lexer) := do
  let bad ← dropBytes lexer.src badOffset
  let badChar := bad.head?.getD '?'
  let span ← Span.new badOffset (badOffset + badChar.utf8Size)
  let lexer := lexer.emit ((((Diagnostic.error Codes.MALFORMED_NUMBER lexer.file span
    ("`" ++ String.singleton badChar ++ "` is not a valid digit in base " ++
      toString radix)).withPrimaryLabel "invalid digit").withSecondary literal
        "in this literal").withNote (digitNote radix))
  let read ← lexer.text digitsStart badOffset
  some (.int ((fromStrRadix i64Max (read.filter (· != '_')) radix).getD 0), lexer)

/-- Digits that are digits: their value, or the limit where they have none. -/
def decode (radix : Nat) (digits : List Char) (literal : Span) (lexer : Lexer) :
    TokenKind × Lexer :=
  match fromStrRadix i64Max digits radix with
  | some value => (.int value, lexer)
  | none =>
      if fromStrRadix (2 ^ 128 - 1) digits radix = some (i64Max + 1) then (.intAtLimit, lexer)
      else (.int i64Max, lexer.emit (integerOutOfRange lexer.file literal))

def number (start : Nat) (first : Char) (lexer : Lexer) : Option (TokenKind × Lexer) := do
  let (radix, digitsStart, lexer) := lexer.numberStart start first
  let lexer := lexer.bumpWhile fun c => unicode.isAlphanumeric c || c == '_'
  let raw ← lexer.text digitsStart lexer.pos
  let digits := raw.filter (· != '_')
  let literal ← Span.new start lexer.pos
  if lexer.peek = some '.' ∧ lexer.peekSecond.any isAsciiDigit then
    lexer.decimalPoint unicode start radix digits literal
  else if digits.isEmpty then
    let leading ← lexer.text start digitsStart
    some (.int 0, lexer.emit ((Diagnostic.error Codes.MALFORMED_NUMBER lexer.file literal
      ("numeric literal has no digits after `" ++ String.ofList leading ++
        "`")).withPrimaryLabel "expected at least one digit"))
  else
    match findInvalid radix raw digitsStart with
    | some badOffset => lexer.invalidDigit digitsStart radix literal badOffset
    | none => some (lexer.decode radix digits literal)

/-! ## Strings -/

def unterminatedString (start : Nat) (reached : String) (lexer : Lexer) : Option Lexer := do
  let span ← Span.new start lexer.pos
  some (lexer.emit ((((Diagnostic.error Codes.UNTERMINATED_STRING lexer.file span
    ("string literal reaches " ++ reached ++ " before its closing quote")).withPrimaryLabel
      "this string is never closed").withNote
        "string literals cannot span multiple lines").withFix "add a closing quote"
          (Span.at lexer.pos) "\"" .machineApplicable))

/-- `\u` without a brace. -/
def noBrace (backslash : Nat) (lexer : Lexer) : Option Lexer := do
  let span ← Span.new backslash lexer.pos
  some (lexer.emit (((((Diagnostic.error Codes.UNKNOWN_ESCAPE lexer.file span
    "expected `\x7b` after `\\u`").withPrimaryLabel "incomplete unicode escape").withNote
      "unicode escapes are written `\\u\x7b1F600\x7d`").withNote
        "a backslash that stands for itself is written `\\\\`, as in `\"C:\\\\users\"`").withFix
          "write a literal backslash as `\\\\u`" span "\\\\u" .maybeIncorrect))

/-- Whether an escape runs into the end of its string. -/
def ranToTheEnd : Option Char → Bool
  | none => true
  | some c => c == '\n' || c == '"'

/-- `\u` with a brace that is never closed. -/
def noClosingBrace (backslash : Nat) (digits : List Char) (lexer : Lexer) : Option Lexer := do
  let span ← Span.new backslash lexer.pos
  let diagnostic := (Diagnostic.error Codes.UNKNOWN_ESCAPE lexer.file span
    "unicode escape is missing its closing `\x7d`").withPrimaryLabel "this escape is never closed"
  some (lexer.emit (
    if digits.isEmpty then
      diagnostic.withNote
        "there is no codepoint here yet either, so `\x7d` alone would not finish it"
    else if ranToTheEnd lexer.peek then
      diagnostic.withFix "close the escape" (Span.at lexer.pos) "\x7d" .machineApplicable
    else
      (diagnostic.withNote ("`" ++ unicode.escapeDebug (lexer.peek.getD '?') ++
        "` is not a hexadecimal digit, so the escape stops before it")).withFix
          "close the escape" (Span.at lexer.pos) "\x7d" .maybeIncorrect))

/-- `char::from_u32`. -/
def charFromU32 (value : Nat) : Option Char :=
  if value.isValidChar then some (Char.ofNat value) else none

/-- `\u` with its braces. -/
def codepoint (backslash : Nat) (digits : List Char) (lexer : Lexer) :
    Option (Option Char × Lexer) := do
  let span ← Span.new backslash lexer.pos
  if digits.isEmpty then
    some (none, lexer.emit (((Diagnostic.error Codes.UNKNOWN_ESCAPE lexer.file span
      "unicode escape has no digits between its braces").withPrimaryLabel
        "expected at least one hexadecimal digit").withNote
          "unicode escapes are written `\\u\x7b1F600\x7d`"))
  else
    match (fromStrRadix (2 ^ 32 - 1) digits 16).bind charFromU32 with
    | some c => some (some c, lexer)
    | none =>
        some (none, lexer.emit (((Diagnostic.error Codes.UNKNOWN_ESCAPE lexer.file span
          ("`" ++ String.ofList digits ++ "` is not a unicode scalar value")).withPrimaryLabel
            "invalid unicode escape").withNote
              "valid values are 0 to 10FFFF, excluding the surrogate range D800 to DFFF"))

def unicodeEscape (backslash : Nat) (lexer : Lexer) : Option (Option Char × Lexer) := do
  match lexer.eat '\x7b' with
  | (false, lexer) =>
      let lexer ← lexer.noBrace backslash
      some (none, lexer)
  | (true, lexer) =>
      let digitsStart := lexer.pos
      let lexer := lexer.bumpWhile isAsciiHexdigit
      let digits ← lexer.text digitsStart lexer.pos
      match lexer.eat '\x7d' with
      | (false, lexer) =>
          let lexer ← lexer.noClosingBrace unicode backslash digits
          some (none, lexer)
      | (true, lexer) => lexer.codepoint backslash digits

/-- What an escaped character other than `u` stands for. -/
def simpleEscape : Char → Option Char
  | 'n' => some '\n'
  | 't' => some '\t'
  | 'r' => some '\r'
  | '0' => some '\x00'
  | '\\' => some '\\'
  | '"' => some '"'
  | _ => none

def unknownEscape (backslash : Nat) (other : Char) (lexer : Lexer) : Option Lexer := do
  let span ← Span.new backslash lexer.pos
  some (lexer.emit ((((Diagnostic.error Codes.UNKNOWN_ESCAPE lexer.file span
    ("unknown escape sequence `\\" ++ String.singleton other ++ "`")).withPrimaryLabel
      "not a recognised escape").withNote
        "Deed defines `\\n`, `\\t`, `\\r`, `\\0`, `\\\\`, `\\\"` and `\\u\x7b...\x7d`").withFix
          ("write a literal backslash as `\\\\" ++ String.singleton other ++ "`") span
            ("\\\\" ++ String.singleton other) .maybeIncorrect))

/-- Decodes one escape sequence. The backslash has already been consumed. -/
def escape (lexer : Lexer) : Option (Option Char × Lexer) := do
  let backslash := lexer.pos - 1
  match lexer.bump with
  | none => some (none, lexer)
  | some (c, next) =>
      if c = '\n' then some (none, lexer)
      else if c = 'u' then next.unicodeEscape unicode backslash
      else
        match simpleEscape c with
        | some decoded => some (some decoded, next)
        | none =>
            let lexer ← next.unknownEscape backslash c
            some (none, lexer)

def string (start : Nat) : Nat → List Char → Lexer → Option (TokenKind × Lexer)
  | 0, _, _ => none
  | turns + 1, value, lexer =>
      match lexer.bump with
      | none => do
          let lexer ← lexer.unterminatedString start "end of file"
          some (.str (String.ofList value), lexer)
      | some (c, next) =>
          if c = '\n' then do
            let lexer ← lexer.unterminatedString start "end of line"
            some (.str (String.ofList value), lexer)
          else if c = '"' then some (.str (String.ofList value), next)
          else if c = '\\' then do
            let (decoded, next) ← next.escape unicode
            string start turns (value ++ decoded.toList) next
          else string start turns (value ++ [c]) next

/-! ## Unknown characters -/

/-- What a character pasted in from formatted text was meant to be. -/
def replacement : Char → Option String
  | '\u201C' => some "\""
  | '\u201D' => some "\""
  | '\uFF1B' => some ";"
  | '\uFF0C' => some ","
  | '\u2013' => some "-"
  | '\u2014' => some "-"
  | _ => none

def unknownCharacter (start : Nat) (c : Char) (lexer : Lexer) : Option Lexer := do
  let span ← Span.new start lexer.pos
  let pasted := (replacement c).isSome || c == '\u2018' || c == '\u2019'
  let diagnostic := (Diagnostic.error Codes.UNKNOWN_CHARACTER lexer.file span
    ("unexpected character `" ++ unicode.escapeDebug c ++ "`")).withPrimaryLabel
      "not valid at the start of a token"
  let diagnostic := if pasted then
      diagnostic.withNote "this looks like a character pasted in from formatted text"
    else diagnostic
  some (lexer.emit (
    match replacement c with
    | some replacement =>
        diagnostic.withFix ("replace it with `" ++ replacement ++ "`") span replacement
          .machineApplicable
    | none =>
        if pasted then
          diagnostic.withNote
            "Deed has no character literals, so text of any length goes between double quotes"
        else diagnostic))

/-! ## Tokens -/

/-- The characters that are a token whatever follows. -/
def single : Char → Option TokenKind
  | '(' => some .lParen
  | ')' => some .rParen
  | '\x7b' => some .lBrace
  | '\x7d' => some .rBrace
  | '[' => some .lBracket
  | ']' => some .rBracket
  | ',' => some .comma
  | '.' => some .dot
  | ':' => some .colon
  | ';' => some .semi
  | '?' => some .question
  | '+' => some .plus
  | '*' => some .star
  | '%' => some .percent
  | '/' => some .slash
  | _ => none

/-- The longer operators a character may start, by the character that follows, and the one
it is alone. -/
def operator : Char → Option (List (Char × TokenKind) × TokenKind)
  | '-' => some ([('>', .arrow)], .minus)
  | '=' => some ([('>', .fatArrow), ('=', .eqEq)], .eq)
  | '!' => some ([('=', .bangEq)], .bang)
  | '<' => some ([('=', .le)], .lt)
  | '>' => some ([('=', .ge)], .gt)
  | '|' => some ([('|', .pipePipe)], .pipe)
  | _ => none

def longest (alone : TokenKind) : List (Char × TokenKind) → Lexer → TokenKind × Lexer
  | [], lexer => (alone, lexer)
  | (second, kind) :: others, lexer =>
      match lexer.eat second with
      | (true, lexer) => (kind, lexer)
      | (false, lexer) => longest alone others lexer

def ampersand (start : Nat) (lexer : Lexer) : Option (TokenKind × Lexer) :=
  match lexer.eat '&' with
  | (true, lexer) => some (.ampAmp, lexer)
  | (false, lexer) => do
      let span ← Span.new start lexer.pos
      some (.error, lexer.emit ((((Diagnostic.error Codes.UNKNOWN_CHARACTER lexer.file span
        "`&` is not an operator in Deed").withPrimaryLabel "expected `&&`").withNote
          "Deed has no bitwise operators, and `&&` is logical and").withFix "use `&&`" span
            "&&" .maybeIncorrect))

/-- The token that starts with the character just read. -/
def token (start : Nat) (c : Char) (lexer : Lexer) : Option (TokenKind × Lexer) :=
  match single c with
  | some kind => some (kind, lexer)
  | none =>
      match operator c with
      | some (longer, alone) => some (longest alone longer lexer)
      | none =>
          if c = '&' then lexer.ampersand start
          else if c = '"' then string unicode start (lexer.rest.length + 1) [] lexer
          else if isAsciiDigit c then lexer.number unicode start c
          else if unicode.isIdentStart c then lexer.ident unicode start
          else (lexer.unknownCharacter unicode start c).map fun lexer => (.error, lexer)

def loop : Nat → Lexer → Option Lexer
  | 0, _ => none
  | turns + 1, lexer => do
      let (broke, lexer) ← lexer.skipTrivia
      let start := lexer.pos
      match lexer.bump with
      | none => some lexer
      | some (c, lexer) =>
          let (kind, lexer) ← lexer.token unicode start c
          let span ← Span.new start lexer.pos
          loop turns { lexer with tokens := lexer.tokens ++ [⟨kind, span, broke⟩] }

end Lexer

/-- A byte order mark, which is not part of the program. -/
def byteOrderMark : Char := '\uFEFF'

/-- The lexer at the start of a text. -/
def opened (file : FileId) : List Char → Lexer
  | [] => ⟨[], [], file, [], [], []⟩
  | c :: text =>
      if c = byteOrderMark then ⟨[c], text, file, [], [], []⟩
      else ⟨[], c :: text, file, [], [], []⟩

/-- Turns source text into tokens. -/
def tokenize (unicode : Unicode) (file : FileId) (src : String) : Option Lexed := do
  let lexer ← Lexer.loop unicode (src.toList.length + 1) (opened file src.toList)
  some ⟨lexer.tokens ++ [⟨.eof, Span.at lexer.pos, true⟩], lexer.trivia, lexer.diagnostics⟩

end Deed.Lexer
