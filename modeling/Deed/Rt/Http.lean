import Deed.Rt.Reach

/-!
# Requests over a network capability

The sending half of `crates/deed-rt/src/http.rs`: the bytes of a request, and one
question asked over a `Net`.  Connecting, reading and taking the answer apart are
a parameter.
-/

namespace Deed.Rt

/-- `str::as_bytes`: the bytes of a string in UTF-8. -/
def asBytes (text : Text) : List UInt8 := text.flatMap String.utf8EncodeChar

/-- What came back. -/
structure Response where
  /-- The status line's code. -/
  status : Nat
  /-- The body, decoded as UTF-8. -/
  body : Text

/-- The request line and the headers. -/
def requestHead (target : Target) (method : Text) (body : Option Text) : Text :=
  method ++ " ".toList ++ target.path ++ " HTTP/1.1\r\nHost: ".toList ++ target.authority ++
    "\r\nConnection: close\r\nAccept: */*\r\n".toList ++
    (match body with
      | some body =>
          "Content-Type: text/plain; charset=utf-8\r\nContent-Length: ".toList ++
            decimal (asBytes body).length ++ "\r\n".toList
      | none => []) ++
    "\r\n".toList

/-- Everything that a request sends. -/
def requestBytes (target : Target) (method : Text) (body : Option Text) : List UInt8 :=
  asBytes (requestHead target method body) ++ asBytes (body.getD [])

/-- Makes one request and reads one response.  `exchange` sends bytes to an address and
takes what comes back apart, or says why it could not. -/
def request (exchange : Text → List UInt8 → Except Text Response) (target : Target)
    (method : Text) (body : Option Text) : Except Text Response :=
  exchange (Reach.withPort target.host target.port) (requestBytes target method body)

/-- One question asked over a `Net`, and the one answer every engine gives. -/
def overTheNetwork (exchange : Text → List UInt8 → Except Text Response) (reach : Reach)
    (url method : Text) (body : Option Text) : Except Text Text :=
  match reach.resolve url with
  | .error refused => .error (refused.message url)
  | .ok target =>
      match request exchange target method body with
      | .error why => .error why
      | .ok answer =>
          if 200 ≤ answer.status ∧ answer.status < 300 then .ok answer.body
          else
            let answered := "\x60".toList ++ url ++ "\x60 answered ".toList ++
              decimal answer.status
            let explanation := Library.trim whitespace answer.body
            if explanation = [] then .error answered
            else .error (answered ++ ": ".toList ++ explanation)

end Deed.Rt
