import Deed.Ast
import Deed.Interp.Io
import Deed.Library.Assoc

/-!
# Runtime values

`crates/deed-interp/src/value.rs`: everything is immutable, and equality is structural
except for closures, of which two are the same only if they are one.  A closure holds an
index instead of its body, and a number that tells it from every other closure, which is
what its address does in the source.
-/

namespace Deed.Eval

open Deed.Library

/-- An index into one module's table of definitions. -/
abbrev DefId := Nat

abbrev FileId := Nat

inductive Value where
  | unit
  | int (value : Int64)
  | str (text : String)
  | bool (value : Bool)
  | record (fields : List (String × Value))
  | variant (origin name : String) (fields : List (String × Value))
  | list (elements : List Value)
  | result (ok : Bool) (value : Value)
  | capability (held : Interp.Capability)
  | closure (address code : Nat) (captured : List (DefId × Value))
  /-- A declared function, named where a value belongs. -/
  | function (home : Nat) (definition : DefId)

/-- Field values, in the order of their names. -/
abbrev Fields := List (String × Value)

/-- What names a running call can see, and what they are bound to. -/
abbrev Frame := List (DefId × Value)

/-- Which module declared something, and what it is called there. -/
abbrev Origin := String × String

namespace Value

def ok (value : Value) : Value := .result true value

def err (value : Value) : Value := .result false value

/-- The value inside, when this is an `ok`. -/
def okPayload : Value → Option Value
  | .result true value => some value
  | _ => none

def asInt : Value → Option Int64
  | .int value => some value
  | _ => none

def asBool : Value → Option Bool
  | .bool value => some value
  | _ => none

/-- What kind of thing this is, for a diagnostic. -/
def describe : Value → String
  | .unit => "()"
  | .int _ => "an Int"
  | .str _ => "a String"
  | .bool _ => "a Bool"
  | .record _ => "a record"
  | .variant _ _ _ => "a variant"
  | .list _ => "a List"
  | .result _ _ => "a Result"
  | .capability _ => "a capability"
  | .closure _ _ _ => "a closure"
  | .function _ _ => "a function"

mutual

/-- `==` on two values. -/
def same : Value → Value → Bool
  | .unit, .unit => true
  | .int left, .int right => left == right
  | .str left, .str right => left == right
  | .bool left, .bool right => left == right
  | .record left, .record right => sameFields left right
  | .variant origin name left, .variant other called right =>
      origin == other && name == called && sameFields left right
  | .list left, .list right => sameElements left right
  | .result ok left, .result good right => ok == good && same left right
  | .capability left, .capability right => left == right
  | .closure left _ _, .closure right _ _ => left == right
  | .function home left, .function other right => home == other && left == right
  | _, _ => false

def sameFields : List (String × Value) → List (String × Value) → Bool
  | [], [] => true
  | (name, left) :: lefts, (called, right) :: rights =>
      name == called && same left right && sameFields lefts rights
  | _, _ => false

def sameElements : List Value → List Value → Bool
  | [], [] => true
  | left :: lefts, right :: rights => same left right && sameElements lefts rights
  | _, _ => false

end

/-- Whether what `unchanged` compares is equal: the state of a handler, if one is there. -/
def sameState : Option Fields → Option Fields → Bool
  | none, none => true
  | some before, some now => sameFields before now
  | _, _ => false

section Display

variable (quoted : String → String)

mutual

/-- How a value is printed; `quoted` is `{:?}` of a string. -/
def display : Value → String
  | .unit => "()"
  | .int value => toString value.toInt
  | .str text => quoted text
  | .bool value => if value then "true" else "false"
  | .record fields => "\x7b " ++ displayFields fields ++ " \x7d"
  | .variant _ name fields =>
      if fields.isEmpty then name else name ++ " \x7b " ++ displayFields fields ++ " \x7d"
  | .list elements => "[" ++ displayElements elements ++ "]"
  | .result ok value => (if ok then "ok(" else "err(") ++ display value ++ ")"
  | .capability held => "<" ++ String.ofList held.name ++ ">"
  | .closure _ _ _ => "<closure>"
  | .function _ _ => "<function>"

def displayFields : List (String × Value) → String
  | [] => ""
  | [(name, value)] => name ++ ": " ++ display value
  | (name, value) :: rest => name ++ ": " ++ display value ++ ", " ++ displayFields rest

def displayElements : List Value → String
  | [] => ""
  | [value] => display value
  | value :: rest => display value ++ ", " ++ displayElements rest

end

end Display

end Value

/-! ## Hashing -/

/-- A hash being built: `deed_rt::hashing::Hash`. -/
abbrev Hash := UInt64

namespace Hash

/-- Where the fold starts. -/
def BASIS : UInt64 := 0xcbf29ce484222325

/-- What each byte is multiplied by, after being exclusive-ored in. -/
def PRIME : UInt64 := 0x00000100000001b3

/-- Takes in one byte. -/
def byte (hash : Hash) (byte : UInt8) : Hash := (hash ^^^ byte.toUInt64) * PRIME

/-- Takes in one word, whole. -/
def word (hash : Hash) (word : Int64) : Hash := (hash ^^^ word.toUInt64) * PRIME

/-- Takes in the characters of a string. -/
def text (hash : Hash) (text : String) : Hash := text.toUTF8.data.toList.foldl byte hash

/-- The number so far, as the `Int` that a program sees. -/
def done (hash : Hash) : Int64 := hash.toInt64

end Hash

mutual

/-- What a value is made of, absorbed in the order `==` reads it; `none` for a value
with nothing to read. -/
def absorb (hash : Hash) : Value → Option Hash
  | .unit => some (hash.word 0)
  | .int number => some (hash.word number)
  | .bool yes => some (hash.word (if yes then 1 else 0))
  | .str text => some ((hash.word (Int64.ofNat text.length)).text text)
  | .list elements => absorbElements (hash.word (Int64.ofNat elements.length)) elements
  | .record fields => absorbFields (hash.word (Int64.ofNat fields.length)) fields
  | .variant _ name fields =>
      absorbFields ((hash.text name).word (Int64.ofNat fields.length)) fields
  | .result ok value => absorb (hash.word (if ok then 1 else 0)) value
  | .capability _ => none
  | .closure _ _ _ => none
  | .function _ _ => none

def absorbElements (hash : Hash) : List Value → Option Hash
  | [] => some hash
  | value :: rest => (absorb hash value).bind fun later => absorbElements later rest

def absorbFields (hash : Hash) : List (String × Value) → Option Hash
  | [] => some hash
  | (name, value) :: rest =>
      (absorb (hash.text name) value).bind fun later => absorbFields later rest

end

/-- A value folded into one number. -/
def hashOf (value : Value) : Option Int64 := (absorb Hash.BASIS value).map Hash.done

end Deed.Eval
