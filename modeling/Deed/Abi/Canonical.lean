import Deed.Abi.Shapes
import Deed.Library.ComponentModel

/-!
# The layout at the boundary and the component model's

What type of the component model a type crosses as, and whether the boundary measures and
writes it as the component model does: the flat types, the size, the alignment and every
offset, of the type and of everything in it.
-/

namespace Deed.Abi

open Deed.Mir (Ty Layout LayoutId Variant Field)
open Deed.Library
open Deed.Library.ComponentModel (ValType Core)

/-! ## The corresponding type -/

/-- A record of fields where one was declared, and otherwise a variant whose cases are tuples of
fields. -/
def declared (layout : Layout) (cases : List (List ValType)) : Option ValType :=
  if layout.choice = false ∧ layout.variants.length = 1 then cases.head?.map .record
  else if cases = [] then none
  else some (.variant (cases.map .record))

section Kinds

variable (each : Ty → Option ValType)

def kindsOf (fields : List Field) : Option (List ValType) := fields.mapM fun field => each field.ty

def casesOf (variants : List Variant) : Option (List (List ValType)) :=
  variants.mapM fun variant => kindsOf each variant.fields

end Kinds

/-- The type of the component model that corresponds to a type, followed through the layouts to
a depth; closures and capabilities have none. -/
def kindOf (layouts : List Layout) : Nat → Ty → Option ValType
  | 0, _ => none
  | depth + 1, ty =>
      match ty with
      | .unit => some (.record [])
      | .bool => some .bool
      | .int => some .s64
      | .str => some .string
      | .list element => (kindOf layouts depth element).map .list
      | .aggregate id =>
          (layouts[id]?).bind fun layout =>
            (casesOf (kindOf layouts depth) layout.variants).bind (declared layout)
      | .closure => none
      | .capability => none

/-- Core types as the boundary calls them. -/
def flatType : Core → FlatType
  | .i32 => .i32
  | .i64 => .i64

/-! ## Offsets -/

section Offsets

variable (alignOf sizeOf : Ty → Answer Nat)

/-- Where fields are written that begin at an offset. -/
def fieldOffsets : List Field → Nat → Answer (List Nat)
  | [], _ => .ok []
  | field :: fields, offset => do
      let a ← alignOf field.ty
      let s ← sizeOf field.ty
      let offsets ← fieldOffsets fields (alignUp offset a + s)
      .ok (alignUp offset a :: offsets)

/-- Where the fields of a variant are written that begins at an offset. -/
def variantOffsets (layout : Layout) (variant : Variant) (offset : Nat) : Answer (List Nat) :=
  if layout.isTagged then do
    let overall ← maxVariantAlign alignOf 1 layout.variants
    fieldOffsets alignOf sizeOf variant.fields
      (offset + alignUp (discriminantSize layout.variants.length) overall)
  else fieldOffsets alignOf sizeOf variant.fields offset

end Offsets

/-- Where the component model stores the fields of a case of a type, or of a record. -/
def modelOffsets (kind : ValType) (case_ pointer : Nat) : List Nat :=
  match kind with
  | .record fields => ComponentModel.fieldOffsets pointer fields
  | .variant cases =>
      match cases[case_]? with
      | some (.record fields) =>
          ComponentModel.fieldOffsets (ComponentModel.payloadOffset pointer cases) fields
      | _ => []
  | _ => []

/-! ## Agreement -/

/-- The boundary measures a type as the component model does. -/
structure Agrees (layouts : List Layout) (depth : Nat) (ty : Ty) (kind : ValType) : Prop where
  flat : flatten layouts depth ty = .ok ((ComponentModel.flatten kind).map flatType)
  align : alignOf layouts depth ty = .ok (ComponentModel.alignment kind)
  size : sizeOf layouts depth ty = .ok (ComponentModel.elemSize kind)
  stride : elementStride layouts depth ty = .ok (ComponentModel.elemSize kind)
  multiple : ComponentModel.alignment kind ∣ ComponentModel.elemSize kind

/-- The boundary lays a type out as the component model does, and everything in it. -/
def Canonical (layouts : List Layout) : Nat → Ty → Prop
  | 0, _ => False
  | depth + 1, ty => ∃ kind, kindOf layouts (depth + 1) ty = some kind ∧
      Agrees layouts (depth + 1) ty kind ∧
      match ty with
      | .list element => Canonical layouts depth element
      | .aggregate id => ∀ layout, layouts[id]? = some layout →
          ∀ (case_ : Nat) (variant : Variant), layout.variants[case_]? = some variant →
            (∀ field ∈ variant.fields, Canonical layouts depth field.ty) ∧
            ∀ pointer, ComponentModel.alignment kind ∣ pointer →
              variantOffsets (alignOf layouts depth) (sizeOf layouts depth) layout variant pointer =
                  .ok (modelOffsets kind case_ pointer) ∧
                List.Forall₂ (fun field offset => aligned layouts depth field.ty ∣ offset)
                  variant.fields (modelOffsets kind case_ pointer)
      | _ => True

/-- Every choice in a type has two cases or more, and a discriminant that is no wider than the
widest alignment in its cases. -/
def Narrow : ValType → Prop
  | .list element => Narrow element
  | .record fields => ∀ field ∈ fields, Narrow field
  | .variant cases => 2 ≤ cases.length ∧
      ComponentModel.discriminantSize cases.length ≤ ComponentModel.maxAlignment cases ∧
      ∀ case_ ∈ cases, Narrow case_
  | _ => True

end Deed.Abi
