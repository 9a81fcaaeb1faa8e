import Deed.Mir.Program
import Deed.Rt.Platform
import Deed.Wasm.Heap

/-!
# The boundary of a component

The types, the values and the memory of `crates/deed-codegen/src/abi.rs`, with the flat
types, the sizes and the alignments that a type presents there.  A layout may refer to
itself, so what follows a type through the layouts takes a depth to follow it to.
-/

namespace Deed.Abi

open Deed.Mir (Ty Layout LayoutId Variant Field)

/-! ## Errors -/

/-- A type that cannot cross a component boundary. -/
inductive Unsupported where
  | closure
  | capability
deriving DecidableEq, Repr

/-- What prevents a value from crossing. -/
inductive Error where
  | outOfBounds
  | invalidUtf8
  | typeMismatch
  | invalidDiscriminant (got max : Nat)
  | unsupported (ty : Unsupported)
deriving DecidableEq, Repr

/-- How a function ends without an answer: with an error, at an index that is not there, or
deeper in the layouts than it was to follow them. -/
inductive Stop where
  | error (error : Error)
  | panics
  | deeper
deriving DecidableEq, Repr

abbrev Answer (α : Type) : Type := Except Stop α

@[simp]
theorem ok_bind {α β : Type} (value : α) (next : α → Answer β) :
    ((Except.ok value : Answer α) >>= next) = next value := rfl

/-! ## Flat types -/

/-- A machine type that a flat value has. -/
inductive FlatType where
  | i32
  | i64
deriving DecidableEq, Repr

/-- How many flat values there may be before a value is passed by pointer. -/
def MAX_FLAT : Nat := 16

/-- The wider of two flat types. -/
def joinOne : FlatType → FlatType → FlatType
  | .i32, .i32 => .i32
  | _, _ => .i64

/-- Two lists of flat types joined place by place; what only one has is taken from it. -/
def joinFlatLists : List FlatType → List FlatType → List FlatType
  | a :: as, b :: bs => joinOne a b :: joinFlatLists as bs
  | [], bs => bs
  | as, [] => as

section Aggregates

variable (each : Ty → Answer (List FlatType))

def flattenFields : List Field → Answer (List FlatType)
  | [] => .ok []
  | field :: fields => do
      let here ← each field.ty
      let rest ← flattenFields fields
      .ok (here ++ rest)

def flattenVariants (payload : List FlatType) : List Variant → Answer (List FlatType)
  | [] => .ok payload
  | variant :: variants => do
      let flat ← flattenFields each variant.fields
      flattenVariants (joinFlatLists payload flat) variants

/-- The layout at a position of the table. -/
def layoutAt (layouts : List Layout) (id : LayoutId) : Answer Layout :=
  (layouts[id]?).elim (.error .panics) .ok

/-- The variant at a position of a layout. -/
def variantAt (layout : Layout) (discriminant : Nat) : Answer Variant :=
  (layout.variants[discriminant]?).elim (.error .panics) .ok

def flattenAggregate (layouts : List Layout) (id : LayoutId) : Answer (List FlatType) := do
  let layout ← layoutAt layouts id
  if layout.isTagged then
    let payload ← flattenVariants each [] layout.variants
    .ok (.i32 :: payload)
  else
    let variant ← variantAt layout 0
    flattenFields each variant.fields

end Aggregates

/-- The flat types that a value of a type presents at the boundary. -/
def flatten (layouts : List Layout) : Nat → Ty → Answer (List FlatType)
  | 0, _ => .error .deeper
  | depth + 1, ty =>
      match ty with
      | .unit => .ok []
      | .bool => .ok [.i32]
      | .int => .ok [.i64]
      | .str => .ok [.i32, .i32]
      | .list element => do
          let _ ← flatten layouts depth element
          .ok [.i32, .i32]
      | .aggregate id => flattenAggregate (flatten layouts depth) layouts id
      | .closure => .error (.error (.unsupported .closure))
      | .capability => .error (.error (.unsupported .capability))

/-! ## Sizes and alignments -/

/-- The next multiple of `a`, which is a power of two, so that the mask of the source is a
division. -/
def alignUp (n a : Nat) : Nat := (n + a - 1) / a * a

/-- How many bytes a discriminant takes. -/
def discriminantSize (variants : Nat) : Nat :=
  if variants ≤ 0x100 then 1 else if variants ≤ 0x10000 then 2 else 4

/-- The widest alignment of some fields, and `a`. -/
def maxFieldAlign (alignOf : Ty → Answer Nat) (a : Nat) : List Field → Answer Nat
  | [] => .ok a
  | field :: fields => do
      let here ← alignOf field.ty
      maxFieldAlign alignOf (max a here) fields

def maxVariantAlign (alignOf : Ty → Answer Nat) (a : Nat) : List Variant → Answer Nat
  | [] => .ok a
  | variant :: variants => do
      let here ← maxFieldAlign alignOf a variant.fields
      maxVariantAlign alignOf here variants

/-- The byte alignment of a type in a component's memory. -/
def alignOf (layouts : List Layout) : Nat → Ty → Answer Nat
  | 0, _ => .error .deeper
  | depth + 1, ty =>
      match ty with
      | .unit => .ok 1
      | .bool => .ok 1
      | .int => .ok 8
      | .str => .ok 4
      | .list element => do
          let _ ← flatten layouts depth element
          .ok 4
      | .aggregate id => do
          let layout ← layoutAt layouts id
          maxVariantAlign (alignOf layouts depth) 1 layout.variants
      | .closure => .error (.error (.unsupported .closure))
      | .capability => .error (.error (.unsupported .capability))

section Sizes

variable (align size : Ty → Answer Nat)

/-- Where some fields end that start at an offset. -/
def advance (offset : Nat) : List Field → Answer Nat
  | [] => .ok offset
  | field :: fields => do
      let a ← align field.ty
      let s ← size field.ty
      advance (alignUp offset a + s) fields

def maxVariantPayloadSize (most : Nat) : List Variant → Answer Nat
  | [] => .ok most
  | variant :: variants => do
      let here ← advance align size 0 variant.fields
      maxVariantPayloadSize (max most here) variants

/-- The size of an aggregate, from the sizes and the alignments of what is in it. -/
def sizeAggregate (layouts : List Layout) (id : LayoutId) : Answer Nat := do
  let layout ← layoutAt layouts id
  let overall ← maxVariantAlign align 1 layout.variants
  if layout.isTagged then
    let most ← maxVariantPayloadSize align size 0 layout.variants
    .ok (alignUp (alignUp (discriminantSize layout.variants.length) overall + most) overall)
  else
    let variant ← variantAt layout 0
    let offset ← advance align size 0 variant.fields
    .ok (alignUp offset overall)

end Sizes

/-- The byte size of a type in a component's memory. -/
def sizeOf (layouts : List Layout) : Nat → Ty → Answer Nat
  | 0, _ => .error .deeper
  | depth + 1, ty =>
      match ty with
      | .unit => .ok 0
      | .bool => .ok 1
      | .int => .ok 8
      | .str => .ok 8
      | .list element => do
          let _ ← flatten layouts depth element
          .ok 8
      | .aggregate id => sizeAggregate (alignOf layouts depth) (sizeOf layouts depth) layouts id
      | .closure => .error (.error (.unsupported .closure))
      | .capability => .error (.error (.unsupported .capability))

/-- The stride between the elements of a list. -/
def elementStride (layouts : List Layout) (depth : Nat) (ty : Ty) : Answer Nat := do
  let s ← sizeOf layouts depth ty
  let a ← alignOf layouts depth ty
  .ok (alignUp s (max a 1))

/-! ## Values -/

/-- A value at the boundary. -/
inductive Val where
  | unit
  | bool (value : Bool)
  | int (value : Int64)
  | str (value : String)
  | list (elements : List Val)
  /-- A record: its fields in declaration order. -/
  | record (fields : List Val)
  /-- A variant of a choice, or a `Result`. -/
  | variant (discriminant : Nat) (fields : List Val)

/-- A flat argument. -/
inductive FlatArg where
  | i32 (value : Int32)
  | i64 (value : Int64)
deriving DecidableEq, Repr

namespace FlatArg

def asI64 : FlatArg → Int64
  | .i32 v => v.toInt64
  | .i64 v => v

def asI32 : FlatArg → Int32
  | .i32 v => v
  | .i64 v => v.toInt32

def zeroFor : FlatType → FlatArg
  | .i32 => .i32 0
  | .i64 => .i64 0

/-- The type of a flat argument. -/
def ty : FlatArg → FlatType
  | .i32 _ => .i32
  | .i64 _ => .i64

end FlatArg

/-- An `i32` as a `usize`. -/
def asUsize (value : Int32) : Nat := value.toInt64.toUInt64.toNat

/-! ## Memory -/

/-- How many bytes a component's memory has. -/
def SIZE : Nat := 64 * 1024

/-- A component's memory: what is below `next` has been handed out. -/
structure Memory where
  bytes : Nat → UInt8
  next : Nat
  inside : next ≤ SIZE

namespace Memory

/-- A fresh memory. -/
def new : Memory := ⟨fun _ => 0, 0, Nat.zero_le _⟩

/-- Hands out `size` bytes. -/
def alloc (memory : Memory) (size align : Nat) : Answer (Nat × Memory) :=
  if fits : alignUp memory.next (max align 1) + size ≤ SIZE then
    .ok (alignUp memory.next (max align 1),
      ⟨memory.bytes, alignUp memory.next (max align 1) + size, fits⟩)
  else .error (.error .outOfBounds)

def writeBytes (memory : Memory) (at_ : Nat) (data : List UInt8) : Answer Memory :=
  if at_ + data.length ≤ SIZE then
    .ok ⟨fun address => (if at_ ≤ address then data[address - at_]? else none).getD
      (memory.bytes address), memory.next, memory.inside⟩
  else .error (.error .outOfBounds)

def readBytes (memory : Memory) (at_ length : Nat) : Answer (List UInt8) :=
  if at_ + length ≤ SIZE then
    .ok ((List.range length).map fun index => memory.bytes (at_ + index))
  else .error (.error .outOfBounds)

end Memory

/-- The lowest bytes of a number, the lowest first. -/
def leBytes (count value : Nat) : List UInt8 := (List.range count).map (Wasm.byteOf value)

/-- The bytes of a string. -/
def textBytes (text : String) : List UInt8 := Rt.asBytes text.toList

/-- The string that some bytes spell, when they are UTF-8. -/
def fromUtf8 (bytes : List UInt8) : Answer Val :=
  match Rt.fromUtf8 bytes with
  | some text => .ok (.str (String.ofList text))
  | none => .error (.error .invalidUtf8)

end Deed.Abi
