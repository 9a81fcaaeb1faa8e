import Deed.Library.Files
import Deed.Rt.Reach

/-!
# Names inside a directory capability

`crates/deed-rt/src/sandbox.rs`: a name resolved inside a `Dir`, for something that
is there and for something that may not be.  What a path leads to is the platform's
to say.
-/

namespace Deed.Rt

open Deed.Library

/-- An absolute path, as the names on the way there. -/
abbrev Path : Type := List Text

/-- `Path::components` of a name, on Unix. -/
def components (name : Text) : List (Component Text) :=
  let pieces := name.splitOn '/'
  let lead : List (Component Text) :=
    if name.head? = some '/' then [.rootDir]
    else if pieces.head? = some ".".toList then [.curDir]
    else []
  lead ++ pieces.filterMap fun piece =>
    if piece = [] ∨ piece = ".".toList then none
    else if piece = "..".toList then some .parentDir
    else some (.normal piece)

namespace Sandbox

/-- Why a name was refused. -/
inductive Refused where
  | empty
  | notOneComponent
  | traversal
  | absolute
  | outside
  | missing
deriving DecidableEq, Repr

/-- The message a program sees, which is the rule that was hit. -/
def Refused.message (name : Text) : Refused → Text
  | .empty => "the empty string names nothing".toList
  | .notOneComponent =>
      "\x60".toList ++ name ++
        "\x60 is not a single name, and a \x60Dir\x60 only takes one at a time".toList
  | .traversal =>
      "\x60".toList ++ name ++
        "\x60 would leave the directory, and there is no way out of a \x60Dir\x60".toList
  | .absolute =>
      "\x60".toList ++ name ++
        "\x60 is an absolute path, and a \x60Dir\x60 only names things inside itself".toList
  | .outside =>
      "\x60".toList ++ name ++ "\x60 resolves outside the directory, so it is refused".toList
  | .missing => "\x60".toList ++ name ++ "\x60 is not there".toList

/-- Checks a name without touching the filesystem. -/
def checkName (name : Text) : Except Refused Unit :=
  if name = [] then .error .empty
  else if name = ".".toList ∨ name = "..".toList then .error .traversal
  else if '/' ∈ name ∨ '\\' ∈ name then .error .notOneComponent
  else
    match components name with
    | [] => .error .empty
    | .rootDir :: _ => .error .absolute
    | .curDir :: _ => .error .traversal
    | .parentDir :: _ => .error .traversal
    | .normal _ :: [] => .ok ()
    | .normal _ :: _ :: _ => .error .notOneComponent

variable (canonicalize : Path → Option Path)

/-- Resolves a name inside a root, or says which rule refused it. -/
def resolve (root : Path) (name : Text) : Except Refused Path := do
  checkName name
  match canonicalize (root ++ [name]) with
  | none => .error .missing
  | some canonical => if root <+: canonical then .ok canonical else .error .outside

/-- Resolves a name inside a root for something that may not be there yet. -/
def resolveNew (root : Path) (name : Text) : Except Refused Path := do
  checkName name
  match canonicalize (root ++ [name]) with
  | some canonical => if root <+: canonical then .ok canonical else .error .outside
  | none => .ok (root ++ [name])

/-- Canonicalizes a path so that it can be the root of a `Dir`. -/
def root (path : Path) : Except Refused Path :=
  match canonicalize path with
  | none => .error .missing
  | some canonical => .ok canonical

end Sandbox

end Deed.Rt
