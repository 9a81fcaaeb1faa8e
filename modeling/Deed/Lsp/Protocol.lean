import Deed.Library.Splitting
import Deed.Lsp.Json

/-!
# The base protocol

`crates/deed-lsp/src/protocol.rs`: `Content-Length`, a blank line, then the message.  A stream
is the list of the bytes that are left of it.
-/

namespace Deed.Lsp.Wire

open Deed.Lexer (fromStrRadix isWhitespace)
open Deed.Library
open Deed.Rt (asBytes fromUtf8)

/-- Why a message could not be read. -/
inductive ReadError where
  /-- The stream ended between messages. -/
  | closed
  | io
  | malformed (message : Text)

/-- The bytes up to a line feed, and it. -/
def lineOf (input : List UInt8) : List UInt8 :=
  input.takeWhile (· != 0x0A) ++ (input.dropWhile (· != 0x0A)).take 1

theorem lineOf_earlier (input : List UInt8) : lineOf input <+: input := by
  refine ⟨(input.dropWhile (· != 0x0A)).drop 1, ?_⟩
  rw [lineOf, List.append_assoc, List.take_append_drop, List.takeWhile_append_dropWhile]

/-- `str::trim_end_matches` of the ends of lines. -/
def unended (line : Text) : Text := line.rdropWhile fun c => c == '\r' || c == '\n'

/-- `str::parse::<usize>`. -/
def parseUsize : Text → Option Nat
  | '+' :: digit :: digits => fromStrRadix (2 ^ 64 - 1) (digit :: digits) 10
  | digits => fromStrRadix (2 ^ 64 - 1) digits 10

/-- What one header says of the length. -/
def header (line : Text) (length : Option Nat) : Except ReadError (Option Nat) :=
  match splitOnce [':'] line with
  | none => .error (.malformed ("header without a `:`: ".toList ++ line))
  | some (name, value) =>
      -- ASCII letters are compared without their case.
      if (trim isWhitespace name).map Char.toLower = "content-length".toList then
        match parseUsize (trim isWhitespace value) with
        | some parsed => .ok (some parsed)
        | none => .error (.malformed
            ("`Content-Length` is not a number: ".toList ++ trim isWhitespace value))
      else .ok length

/-- The headers up to a blank line: the length, and what is left. -/
def headers (input : List UInt8) (length : Option Nat) :
    Except ReadError (Option Nat × List UInt8) :=
  if _filled : lineOf input = [] then .error .closed
  else
    match fromUtf8 (lineOf input) with
    | none => .error .io
    | some line =>
        let rest := input.drop (lineOf input).length
        if unended line = [] then .ok (length, rest)
        else
          match header (unended line) length with
          | .error e => .error e
          | .ok length => headers rest length
termination_by input.length
decreasing_by
  have some_ := List.length_pos_iff.mpr _filled
  have within_ := (lineOf_earlier input).length_le
  rw [List.length_drop]
  omega

/-- Reads one message, headers and all, and leaves what is behind it. -/
def readMessage (input : List UInt8) : Option (Except ReadError (Json × List UInt8)) :=
  match headers input none with
  | .error e => some (.error e)
  | .ok (none, _) => some (.error (.malformed "no `Content-Length`".toList))
  | .ok (some length, rest) =>
      if rest.length < length then some (.error .io)
      else
        match fromUtf8 (rest.take length) with
        | none => some (.error (.malformed "the body was not UTF-8".toList))
        | some text =>
            (parse text).map fun read =>
              match read with
              | .ok json => .ok (json, rest.drop length)
              | .error e => .error (.malformed
                  (e.message ++ " at offset ".toList ++ (toString e.offset).toList))

/-- Writes one message, headers and all. -/
def writeMessage (display : Double → Text) (message : Json) : List UInt8 :=
  let body := write display message
  asBytes ("Content-Length: ".toList ++ (toString (asBytes body).length).toList ++
    "\r\n\r\n".toList) ++ asBytes body

/-- What reading again and again yields until the stream is closed. -/
inductive Yields : List UInt8 → List Json → Prop where
  | closed {input : List UInt8} : readMessage input = some (.error .closed) → Yields input []
  | message {input rest : List UInt8} {json : Json} {others : List Json} :
      readMessage input = some (.ok (json, rest)) → Yields rest others →
      Yields input (json :: others)

end Deed.Lsp.Wire
