import Deed.Eval.Program
import Deed.Typeck.Facts

/-!
# Types as the checker sees them

The part of `crates/deed-typeck/src/ty.rs` that checking a `match` reads: the types, what
is declared under a name, and how a type is written in a diagnostic.
-/

namespace Deed.Typeck

open Deed.Ast (Span)
open Deed.Eval (DefId)

/-- One entry of the row of a function type. -/
structure RowEntry where
  module : String
  effect : String
  /-- `none` means every operation of the effect. -/
  operation : Option String
  /-- Whether this is a row variable rather than an effect. -/
  variable_ : Bool
deriving DecidableEq, Repr

/-- What a function value is allowed to perform. -/
inductive FnRow where
  | declared (entries : List RowEntry)
  /-- A closure written on the spot, whose row is not worked out here. -/
  | inferred
deriving DecidableEq, Repr

inductive Ty where
  /-- Nothing useful is known. -/
  | unknown
  /-- The type of an expression that does not return. -/
  | never
  | unit
  | int
  | str
  | bool
  /-- A record, a choice or a refinement declared in this module. -/
  | named (definition : DefId) (args : List Ty)
  /-- The same, declared in another module. -/
  | external (module name : String) (args : List Ty)
  | result (ok err : Ty)
  | list (element : Ty)
  /-- A type parameter, by its position in the declaration. -/
  | param (index : Nat) (name : String)
  | fn (params : List Ty) (row : FnRow) (ret : Ty)

namespace Ty

/-- Whether a type agrees with anything. -/
def absorbs : Ty → Bool
  | .unknown | .never => true
  | _ => false

mutual

/-- The same type with every parameter replaced by what it was bound to. -/
def substitute (bindings : List Ty) : Ty → Ty
  | .param index _ => bindings.getD index .unknown
  | .result ok err => .result (substitute bindings ok) (substitute bindings err)
  | .list element => .list (substitute bindings element)
  | .named definition args => .named definition (substituteAll bindings args)
  | .external module name args => .external module name (substituteAll bindings args)
  | .fn params row ret => .fn (substituteAll bindings params) row (substitute bindings ret)
  | other => other

def substituteAll (bindings : List Ty) : List Ty → List Ty
  | [] => []
  | first :: rest => substitute bindings first :: substituteAll bindings rest

end

end Ty

structure FieldTy where
  name : String
  ty : Ty

structure VariantTy where
  definition : DefId
  name : String
  /-- `none` for a variant with no payload. -/
  fields : Option (List FieldTy)

/-- What is declared under a name. -/
inductive Nominal where
  | record (fields : List FieldTy)
  | choice (variants : List VariantTy)
  | refinement (base : Ty) (predicate : Span)
  | handler (state : List FieldTy)

/-- An exported declaration, with its types readable from outside. -/
inductive SurfaceItem where
  | choice (variants : List String)
  /-- A refinement is opaque from outside. -/
  | refinement (base : Ty)
  /-- A function, a record, a variant, an alias, an effect or a handler. -/
  | other

/-- What the checker knows of the declarations it can see. -/
structure Types where
  nominal : DefId → Option Nominal
  name : DefId → Option String

namespace Types

variable (types : Types)

def nameOf (definition : DefId) : String := (types.name definition).getD "?"

/-- Several texts with commas between them. -/
def joined (texts : List String) : String := String.intercalate ", " texts

/-- The row of a function type as it is written. -/
def writtenRow : FnRow → String
  | .declared [] => ""
  | .declared entries =>
      " uses " ++ joined (entries.map fun entry =>
        match entry.operation with
        | some operation => entry.effect ++ "." ++ operation
        | none => entry.effect)
  | .inferred => ""

/-- A name with what it was applied to. -/
def applied (name : String) (args : List String) : String :=
  if args.isEmpty then name else name ++ "<" ++ joined args ++ ">"

mutual

/-- A type as it is written. -/
def bare : Ty → String
  | .unknown => "_"
  | .never => "!"
  | .unit => "()"
  | .int => "Int"
  | .str => "String"
  | .bool => "Bool"
  | .named definition args => applied (types.nameOf definition) (bareAll args)
  | .external _ name args => applied name (bareAll args)
  | .result ok err => "Result<" ++ bare ok ++ ", " ++ bare err ++ ">"
  | .list element => "List<" ++ bare element ++ ">"
  | .param _ name => name
  | .fn params row ret =>
      "Fn(" ++ joined (bareAll params) ++ ")" ++ writtenRow row ++ " -> " ++ bare ret

def bareAll : List Ty → List String
  | [] => []
  | first :: rest => bare first :: bareAll rest

end

/-- A name for a type, suitable for a diagnostic. -/
def describe (ty : Ty) : String :=
  match ty with
  | .unknown => "an unknown type"
  | .never => "no value"
  | .named _ _ =>
      if types.bare ty = "?" then "an unnamed type" else "`" ++ types.bare ty ++ "`"
  | .external module _ _ =>
      -- A capability is not from anywhere a reader could go and look.
      if module ≠ "<prelude>" then "`" ++ types.bare ty ++ "` from `" ++ module ++ "`"
      else if types.bare ty = "?" then "an unnamed type"
      else "`" ++ types.bare ty ++ "`"
  | .param _ name => "`" ++ name ++ "`, a type parameter"
  | other => "`" ++ types.bare other ++ "`"

end Types

end Deed.Typeck
