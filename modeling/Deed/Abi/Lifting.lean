import Deed.Abi.Shapes

/-!
# Lifting in machine words

The readers of `crates/deed-codegen/src/abi.rs` once more, with the arithmetic that they do on
what the other side supplies: offsets, counts and strides are `usize`, and an operation that
does not fit one panics where arithmetic is checked and wraps where it is not.
-/

namespace Deed.Abi.Machine

open Deed.Mir (Ty Layout LayoutId Variant Field)

/-! ## Machine words -/

/-- A number as a `usize`, where it is one. -/
def usize (n : Nat) : Answer Nat := if n < 2 ^ 64 then .ok n else .error .panics

def plus (a b : Nat) : Answer Nat := usize (a + b)

def times (a b : Nat) : Answer Nat := usize (a * b)

/-- The next multiple; the sum is taken before the mask. -/
def alignedUp (n a : Nat) : Answer Nat := do
  let _ ← plus n a
  .ok (alignUp n a)

def readBytes (memory : Memory) (at_ length : Nat) : Answer (List UInt8) := do
  let _ ← plus at_ length
  memory.readBytes at_ length

/-- A vector with a capacity, which the allocator may have no room for. -/
def reserve (room count : Nat) : Answer Unit :=
  if count ≤ room then .ok () else .error .panics

/-! ## Out of memory -/

/-- The string of `length` bytes at a pointer. -/
def readText (memory : Memory) (pointer length : Nat) : Answer Val :=
  if length = 0 then .ok (.str "")
  else do
    let bytes ← readBytes memory pointer length
    fromUtf8 bytes

section Loading

variable (alignOf sizeOf : Ty → Answer Nat) (load : Ty → Nat → Answer Val)

/-- The elements of a list that are left from an index on. -/
def loadElements (element : Ty) (pointer stride : Nat) : Nat → Nat → Answer (List Val)
  | 0, _ => .ok []
  | left + 1, index => do
      let step ← times index stride
      let at_ ← plus pointer step
      let value ← load element at_
      let values ← loadElements element pointer stride left (index + 1)
      .ok (value :: values)

/-- The list of `count` elements at a pointer. -/
def readList (room : Nat) (stride : Answer Nat) (element : Ty) (pointer count : Nat) :
    Answer Val := do
  let stride ← stride
  let stride ← usize stride
  reserve room count
  let elements ← loadElements load element pointer stride count 0
  .ok (.list elements)

def loadFields : List Field → Nat → Answer (List Val)
  | [], _ => .ok []
  | field :: fields, offset => do
      let a ← alignOf field.ty
      let at_ ← alignedUp offset a
      let value ← load field.ty at_
      let s ← sizeOf field.ty
      let next ← plus at_ s
      let values ← loadFields fields next
      .ok (value :: values)

def liftAggregateFromMemory (layouts : List Layout) (id : LayoutId) (memory : Memory)
    (offset : Nat) : Answer Val := do
  let layout ← layoutAt layouts id
  if layout.isTagged then
    let ds := discriminantSize layout.variants.length
    let bytes ← readBytes memory offset ds
    let disc := Wasm.littleEndian bytes
    if layout.variants.length ≤ disc then
      .error (.error (.invalidDiscriminant disc (layout.variants.length - 1)))
    else
      let variant ← variantAt layout disc
      let overall ← maxVariantAlign alignOf 1 layout.variants
      let base ← plus offset (alignUp ds overall)
      let fields ← loadFields alignOf sizeOf load variant.fields base
      .ok (.variant disc fields)
  else
    let variant ← variantAt layout 0
    let fields ← loadFields alignOf sizeOf load variant.fields offset
    .ok (.record fields)

end Loading

/-- Lifts a value from a block of memory at an offset. -/
def liftFromMemory (room : Nat) (layouts : List Layout) (memory : Memory) :
    Nat → Ty → Nat → Answer Val
  | 0, _, _ => .error .deeper
  | depth + 1, ty, offset =>
      match ty with
      | .unit => .ok .unit
      | .bool => do
          let bytes ← readBytes memory offset 1
          .ok (.bool (Wasm.littleEndian bytes != 0))
      | .int => do
          let bytes ← readBytes memory offset 8
          .ok (.int (UInt64.ofNat (Wasm.littleEndian bytes)).toInt64)
      | .str => do
          let pointer ← readBytes memory offset 4
          let next ← plus offset 4
          let length ← readBytes memory next 4
          readText memory (Wasm.littleEndian pointer) (Wasm.littleEndian length)
      | .list element => do
          let pointer ← readBytes memory offset 4
          let next ← plus offset 4
          let count ← readBytes memory next 4
          readList (liftFromMemory room layouts memory depth) room
            (elementStride layouts depth element) element (Wasm.littleEndian pointer)
            (Wasm.littleEndian count)
      | .aggregate id =>
          liftAggregateFromMemory (alignOf layouts depth) (sizeOf layouts depth)
            (liftFromMemory room layouts memory depth) layouts id memory offset
      | .closure => .error (.error (.unsupported .closure))
      | .capability => .error (.error (.unsupported .capability))

/-! ## From flat arguments -/

/-- Lifts a value from its flat arguments. -/
def lift (room : Nat) (layouts : List Layout) (memory : Memory) :
    Nat → List FlatArg → Ty → Answer Val
  | 0, _, _ => .error .deeper
  | depth + 1, flat, ty =>
      match ty with
      | .unit => .ok .unit
      | .bool => .ok (.bool ((flat.head?).any fun arg => arg.asI32 != 0))
      | .int => .ok (.int ((flat.head?).elim 0 FlatArg.asI64))
      | .str => readText memory (firstUsize flat) (firstUsize flat.tail)
      | .list element =>
          readList (liftFromMemory room layouts memory depth) room
            (elementStride layouts depth element) element (firstUsize flat)
            (firstUsize flat.tail)
      | .aggregate id =>
          liftAggregateFlat (flatten layouts depth) (lift room layouts memory depth) layouts
            flat id
      | .closure => .error (.error (.unsupported .closure))
      | .capability => .error (.error (.unsupported .capability))

/-! ## What there has to be -/

/-- An answer or an error: no panic, and no depth that is too small. -/
def Settles {α : Type} (answer : Answer α) : Prop :=
  answer ≠ .error .panics ∧ answer ≠ .error .deeper

/-- A type that ends at a depth: no layout in it contains itself, and each is there. -/
def Ends (layouts : List Layout) : Nat → Ty → Prop
  | 0, _ => False
  | depth + 1, ty =>
      match ty with
      | .list element => Ends layouts depth element
      | .aggregate id => ∃ layout, layouts[id]? = some layout ∧ layout.variants ≠ [] ∧
          ∀ variant ∈ layout.variants, ∀ field ∈ variant.fields, Ends layouts depth field.ty
      | _ => True

/-- The number that some bytes of memory spell, as the readers assemble it. -/
def numberAt (memory : Memory) (offset count : Nat) : Nat :=
  Wasm.littleEndian ((List.range count).map fun index => memory.bytes (offset + index))

/-- There is room for the elements of a list, and they lie below the end of the address space
(what is read of the last may be up to three words beyond it). -/
def Fits (room stride pointer count : Nat) : Prop :=
  stride < 2 ^ 64 ∧ (count = 0 ∨ count ≤ room ∧ pointer + count * stride + 32 ≤ 2 ^ 64)

instance (room stride pointer count : Nat) : Decidable (Fits room stride pointer count) :=
  inferInstanceAs (Decidable (_ ∧ _))

/-- What is asked of some fields, each where it is read. -/
def EachField (align size : Ty → Nat) (asked : Ty → Nat → Prop) : List Field → Nat → Prop
  | [], _ => True
  | field :: fields, offset =>
      asked field.ty (alignUp offset (align field.ty)) ∧
        EachField align size asked fields (alignUp offset (align field.ty) + size field.ty)

/-- The elements of a list fit, and what is asked of each holds. -/
def EachElement (room : Nat) (stride : Answer Nat) (asked : Nat → Prop) (pointer count : Nat) :
    Prop :=
  ∀ apart, stride = .ok apart →
    Fits room apart pointer count ∧ ∀ index < count, asked (pointer + index * apart)

/-- Every list in what is read at an offset fits. -/
def ListsFit (room : Nat) (layouts : List Layout) (memory : Memory) : Nat → Ty → Nat → Prop
  | 0, _, _ => False
  | depth + 1, ty, offset =>
      match ty with
      | .list element => offset + 8 ≤ SIZE →
          EachElement room (elementStride layouts depth element)
            (ListsFit room layouts memory depth element)
            (numberAt memory offset 4) (numberAt memory (offset + 4) 4)
      | .aggregate id => ∀ layout, layouts[id]? = some layout →
          if layout.isTagged then
            ∀ variant, layout.variants[numberAt memory offset
                (discriminantSize layout.variants.length)]? = some variant →
              EachField (aligned layouts depth) (sized layouts depth)
                (ListsFit room layouts memory depth) variant.fields
                (offset + alignUp (discriminantSize layout.variants.length)
                  (overall layouts depth layout))
          else ∀ variant, layout.variants[0]? = some variant →
            EachField (aligned layouts depth) (sized layouts depth)
              (ListsFit room layouts memory depth) variant.fields offset
      | _ => True

/-- The arguments of some fields are there, and what is asked of each holds. -/
def EachGiven (flatten : Ty → Answer (List FlatType)) (asked : List FlatArg → Ty → Prop)
    (flat : List FlatArg) : List Field → Nat → Prop
  | [], _ => True
  | field :: fields, cursor => ∀ types, flatten field.ty = .ok types →
      cursor + types.length ≤ flat.length ∧
        asked (coerceFlat ((flat.drop cursor).take types.length) types) field.ty ∧
        EachGiven flatten asked flat fields (cursor + types.length)

/-- As many flat arguments as a value is read from, with pointers, lengths and counts that
name what can be there. -/
def Given (room : Nat) (layouts : List Layout) (memory : Memory) :
    Nat → List FlatArg → Ty → Prop
  | 0, _, _ => False
  | depth + 1, flat, ty =>
      match ty with
      | .str => firstUsize flat.tail = 0 ∨ firstUsize flat + firstUsize flat.tail < 2 ^ 64
      | .list element =>
          EachElement room (elementStride layouts depth element)
            (ListsFit room layouts memory depth element) (firstUsize flat)
            (firstUsize flat.tail)
      | .aggregate id => ∀ layout, layouts[id]? = some layout → ∀ variant,
          layout.variants[if layout.isTagged then firstUsize flat else 0]? = some variant →
            EachGiven (flatten layouts depth) (Given room layouts memory depth) flat
              variant.fields (if layout.isTagged then 1 else 0)
      | _ => True

end Deed.Abi.Machine
