import Deed.Codegen.Equality
import Deed.Library.Sorted
import Deed.Runtime.Helpers

/-!
# Folding a value that lives in memory into one number

`crates/deed-codegen/src/hashing.rs`: one function for each shape that is hashed, which
takes the running hash and a value and answers the hash.
-/

namespace Deed.Codegen.Hashing

open Deed.Wasm Deed.Mir Deed.Runtime Deed.Library

/-- `(hash, value) -> hash`, for a value of one shape. -/
def signature : FuncType := ⟨[.i64, .i64], [.i64]⟩

/-- Whether a shape needs a function of its own to be hashed. -/
def walked (ty : Ty) : Bool := Equality.walked ty

/-- Where each shape's fold and the text helper are numbered. -/
structure Where where
  hashes : List (Ty × UInt32)
  hashText : UInt32

def Where.call (at_ : Where) (ty : Ty) : Option Ins := callOf at_.hashes ty

/-- The locals a shape's fold needs beyond its two parameters: the running hash in 2, the
address in 3, and the count and the counter of a list in 4 and 5. -/
def locals : List ValType := [.i64, .i32, .i32, .i32]

/-- Absorbs a name known at compile time, a byte at a time. -/
def absorbName (name : String) : List Ins :=
  (bytesOf name).flatMap fun byte => Code.absorb [.i64Const (.ofNat byte.toNat)]

/-- What takes a value's word into the running hash by a call, where that is how. -/
def folds (ty : Ty) (at_ : Where) : Option (Option Ins) :=
  if ty = .str then some (some (.call at_.hashText))
  else if walked ty then (at_.call ty).map some
  else some none

/-- Absorbs one value of type `ty`, whose word the given instructions leave on the
stack. -/
def absorbValue (loaded : List Ins) (ty : Ty) (at_ : Where) : Option (List Ins) :=
  (folds ty at_).map fun call =>
    match call with
    | some call => [.localGet 2] ++ loaded ++ [call, .localSet 2]
    | none => Code.absorb loaded

/-- Starts the fold from what was handed in, and narrows the address. -/
def opened : List Ins :=
  [.localGet 0, .localSet 2, .localGet 1, .i32WrapI64, .localSet 3]

/-- One field: its name, and then its value. -/
def field (tagged : Bool) (at_ : Where) (entry : String × Nat × Ty) : Option (List Ins) :=
  (absorbValue [.localGet 3, .i64Load (fieldOffset tagged entry.2.1)] entry.2.2 at_).map
    fun code => absorbName entry.1 ++ code

/-- The fields of a variant with their positions, in the order of their names. -/
def ordered (variant : Variant) : List (String × Nat × Ty) :=
  sorted (variant.fields.zipIdx.map fun one => (one.1.name, one.2, one.1.ty))

/-- One variant: its name if a choice declared it, how many fields it has, and the fields
in the order of their names. -/
def arm (choice tagged : Bool) (at_ : Where) (variant : Variant) : Option (List Ins) :=
  ((ordered variant).mapM (field tagged at_)).map fun fields =>
    (if choice then absorbName variant.name else []) ++
      Code.absorb [.i64Const (.ofNat variant.fields.length)] ++ seq fields

def aggregate (program : Program) (id : LayoutId) (at_ : Where) : Option (List Ins) :=
  let held := program.layout id
  let tagged := held.isTagged
  (held.variants.mapM (arm held.choice tagged at_)).map fun bodies =>
    seq [opened, arms 3 tagged bodies 0, [.localGet 2, .return_]]

/-- A list: its length, then every element. -/
def list (element : Ty) (at_ : Where) : Option (List Ins) :=
  (absorbValue (elementAt 3 5 ++ [.i64Load 0]) element at_).map fun turn =>
    seq [
      opened,
      Code.absorb [.localGet 3, .i64Load 0],
      [.localGet 3, .i64Load 0, .i32WrapI64, .localSet 4],
      countTo 5 4 turn,
      [.localGet 2, .return_]]

/-- The locals beyond the parameters, and the body. -/
def compile (program : Program) (ty : Ty) (at_ : Where) : List ValType × List Ins :=
  let body :=
    match ty with
    | .aggregate id => aggregate program id at_
    | .list element => list element at_
    | _ => none
  (locals, body.getD [.localGet 0, .return_])

/-- `Expr::Hashed` of `crates/deed-codegen/src/compile.rs`: the basis, the value, and the
fold that its type asks for. -/
def hashed (value : List Ins) (ty : Ty) (at_ : Where) : Option (List Ins) :=
  let start := .i64Const (.ofNat 0xcbf29ce484222325) :: value ++
    if ty = .bool then [.i64ExtendI32S] else []
  if ty = .str then some (start ++ [.call at_.hashText])
  else if walked ty then (at_.call ty).map fun call => start ++ [call]
  else if ty.isBoxed then none
  -- A word, folded where it stands; a type without a representation pushed nothing.
  else some (start ++
    if (valType ty).isSome then [.i64Xor, .i64Const 1099511628211, .i64Mul] else [])

end Deed.Codegen.Hashing
