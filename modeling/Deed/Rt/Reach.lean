import Deed.Library.Splitting

/-!
# Hosts a program may reach

`crates/deed-rt/src/reach.rs`: a URL resolved inside a network capability, and a
capability narrowed to one of its hosts.  A string is the list of its characters.
-/

namespace Deed.Rt

open Deed.Library

/-- A string of the source, as its characters. -/
abbrev Text : Type := List Char

/-- The characters that `str::trim` takes off either end. -/
def whitespace (character : Char) : Bool :=
  decide (character.toNat ∈ [0x20, 0x85, 0xa0, 0x1680, 0x2028, 0x2029, 0x202f, 0x205f, 0x3000]) ||
    (decide (0x09 ≤ character.toNat) && decide (character.toNat ≤ 0x0d)) ||
    (decide (0x2000 ≤ character.toNat) && decide (character.toNat ≤ 0x200a))

/-- `str::to_ascii_lowercase`. -/
def toAsciiLowercase (text : Text) : Text := text.map Char.toLower

/-- A number as it is written in a sentence. -/
def decimal (number : Nat) : Text := Nat.toDigits 10 number

/-- `str::parse::<u16>`: a plus sign or none, and then digits. -/
def parsePort (text : Text) : Option Nat :=
  let digits := if text.head? = some '+' then text.tail else text
  if digits ≠ [] ∧ digits.all Char.isDigit ∧ Nat.ofDigitChars 10 digits 0 < 65536 then
    some (Nat.ofDigitChars 10 digits 0)
  else none

/-- The hosts a `Net` may reach. -/
structure Reach where
  hosts : Finset Text
deriving DecidableEq

/-- Where a URL points, once it has been allowed. -/
structure Target where
  /-- The host, lowercased. -/
  host : Text
  /-- The port, defaulted from the scheme when the URL left it out. -/
  port : Nat
  /-- Everything from the path onwards, including any query. -/
  path : Text
deriving DecidableEq, Repr

namespace Reach

/-- Why a URL or a host was refused. -/
inductive Refused where
  | empty
  | notAUrl
  | notHttp (scheme : Text)
  | notAPort (port : Text)
  | notGranted (host : Text)
deriving DecidableEq, Repr

/-- The message a program sees, which is the rule that was hit. -/
def Refused.message (subject : Text) : Refused → Text
  | .empty => "the empty string names nothing".toList
  | .notAUrl =>
      "\x60".toList ++ subject ++
        "\x60 is not a URL, and a \x60Net\x60 reaches things by URL".toList
  | .notHttp scheme =>
      if scheme = "https".toList then
        "\x60".toList ++ subject ++
          ("\x60 is \x60https\x60, and this runtime speaks \x60http\x60 only, because TLS " ++
            "needs a cryptographic implementation and this compiler carries no " ++
            "dependencies; a compiled component asks its host for \x60deed:io.fetch\x60 " ++
            "and the host may speak whatever it likes").toList
      else
        "\x60".toList ++ subject ++ "\x60 is \x60".toList ++ scheme ++
          "\x60, and a \x60Net\x60 speaks \x60http\x60".toList
  | .notAPort port => "\x60".toList ++ port ++ "\x60 is not a port number".toList
  | .notGranted host =>
      "\x60".toList ++ host ++
        ("\x60 is not one of the hosts this \x60Net\x60 reaches, and there is no way to " ++
          "widen one").toList

/-- A capability that reaches nothing. -/
def none : Reach := ⟨∅⟩

/-- A granted host as the capability keeps it. -/
def normal (host : Text) : Text := toAsciiLowercase (trim whitespace host)

/-- A capability reaching exactly `hosts`. -/
def granting (hosts : List Text) : Reach :=
  ⟨((hosts.map normal).filter (· ≠ [])).toFinset⟩

/-- A host with a port, as it is written. -/
def withPort (host : Text) (port : Nat) : Text := host ++ ':' :: decimal port

/-- Whether a host, or a host and port, is reachable. -/
def admits (reach : Reach) (host : Text) (port : Nat) : Bool :=
  decide (host ∈ reach.hosts) || decide (withPort host port ∈ reach.hosts)

/-- Where the authority of a URL ends. -/
def pathStarts (character : Char) : Bool :=
  character = '/' || character = '?' || character = '#'

/-- Splits a URL into scheme, authority and path without validating anything. -/
def parts (url : Text) : Except Refused (Text × Text × Text) :=
  if url = [] then .error .empty
  else
    match splitOnce "://".toList url with
    | Option.none => .error .notAUrl
    | some (scheme, rest) =>
        if toAsciiLowercase scheme = [] then .error .notAUrl
        else
          let authority := rest.takeWhile (!pathStarts ·)
          let path := rest.dropWhile (!pathStarts ·)
          if authority = [] ∨ '@' ∈ authority then .error .notAUrl
          else
            .ok (toAsciiLowercase scheme, authority,
              if path = [] then "/".toList else path)

/-- Splits `host:port`, defaulting the port when there is none. -/
def splitAuthority (authority : Text) (default : Nat) : Except Refused (Text × Nat) :=
  let finish (host : Text) (port : Nat) : Except Refused (Text × Nat) :=
    if host = [] ∨ ':' ∈ host then .error .notAUrl
    else .ok (toAsciiLowercase host, port)
  match rsplitOnce ':' authority with
  | some (host, port) =>
      if ':' ∈ host then .error .notAUrl
      else
        match parsePort port with
        | Option.none => .error (.notAPort port)
        | some 0 => .error (.notAPort port)
        | some (parsed + 1) => finish host (parsed + 1)
  | Option.none => finish authority default

/-- Resolves `url` against `reach`, or says which rule refused it. -/
def resolve (reach : Reach) (url : Text) : Except Refused Target := do
  let (scheme, authority, path) ← parts url
  if scheme ≠ "http".toList then .error (.notHttp scheme)
  else
    let (host, port) ← splitAuthority authority 80
    if !reach.admits host port then .error (.notGranted host)
    else .ok ⟨host, port, path⟩

/-- Whether a string holds another. -/
def contains (text piece : Text) : Bool := (splitOnce piece text).isSome

/-- Narrows `reach` to `host`, or says why it cannot. -/
def narrow (reach : Reach) (host : Text) : Except Refused Reach :=
  let host := trim whitespace host
  if host = [] then .error .empty
  else if contains host "://".toList ∨ '/' ∈ host ∨ '@' ∈ host then .error .notAUrl
  else do
    let (name, port) ← splitAuthority host 0
    let asked := if port = 0 then name else withPort name port
    if asked ∈ reach.hosts ∨ port ≠ 0 ∧ name ∈ reach.hosts then .ok ⟨{asked}⟩
    else .error (.notGranted asked)

end Reach

/-- The authority as it is written in a `Host:` header and in a message. -/
def Target.authority (target : Target) : Text :=
  if target.port = 80 then target.host else Reach.withPort target.host target.port

end Deed.Rt
