import Deed.Abi.Boundary

/-!
# Lowering and lifting

The four directions of `crates/deed-codegen/src/abi.rs`: a value to its flat arguments or
into memory, and back.
-/

namespace Deed.Abi

open Deed.Mir (Ty Layout LayoutId Variant Field)

/-! ## Into memory -/

section Storing

variable (alignOf sizeOf : Ty → Answer Nat)
  (store : Val → Ty → Memory → Nat → Answer Memory)

/-- Fields one after the other, each at its alignment. -/
def storeFields : List Val → List Field → Memory → Nat → Answer Memory
  | value :: values, field :: fields, memory, offset => do
      let a ← alignOf field.ty
      let memory ← store value field.ty memory (alignUp offset a)
      let s ← sizeOf field.ty
      storeFields values fields memory (alignUp offset a + s)
  | _, _, memory, _ => .ok memory

/-- The elements of a list, a stride apart. -/
def storeElements (element : Ty) (stride : Nat) : List Val → Memory → Nat → Answer Memory
  | value :: values, memory, offset => do
      let memory ← store value element memory offset
      storeElements element stride values memory (offset + stride)
  | [], memory, _ => .ok memory

def lowerAggregateToMemory (layouts : List Layout) (value : Val) (id : LayoutId)
    (memory : Memory) (offset : Nat) : Answer Memory := do
  let layout ← layoutAt layouts id
  if layout.isTagged then
    match value with
    | .variant discriminant fields => do
        let variant ← variantAt layout discriminant
        let ds := discriminantSize layout.variants.length
        let memory ← memory.writeBytes offset (leBytes ds discriminant)
        let overall ← maxVariantAlign alignOf 1 layout.variants
        storeFields alignOf sizeOf store fields variant.fields memory
          (offset + alignUp ds overall)
    | _ => .error (.error .typeMismatch)
  else
    match value with
    | .record fields => do
        let variant ← variantAt layout 0
        storeFields alignOf sizeOf store fields variant.fields memory offset
    | _ => .error (.error .typeMismatch)

end Storing

/-- The bytes of a string in a block of their own; an empty one has none. -/
def allocText (text : String) (memory : Memory) : Answer (Nat × Memory) :=
  if textBytes text = [] then .ok (0, memory)
  else do
    let (p, memory) ← memory.alloc (textBytes text).length 1
    let memory ← memory.writeBytes p (textBytes text)
    .ok (p, memory)

/-- The elements of a list in a block of their own; an empty one has none. -/
def allocElements (align stride : Nat) (store : List Val → Memory → Nat → Answer Memory)
    (elements : List Val) (memory : Memory) : Answer (Nat × Memory) :=
  match elements with
  | [] => .ok (0, memory)
  | value :: values => do
      let (p, memory) ← memory.alloc (stride * (value :: values).length) (max align 1)
      let memory ← store (value :: values) memory p
      .ok (p, memory)

/-- A pointer and a length where a string or a list goes. -/
def writePair (memory : Memory) (offset pointer length : Nat) : Answer Memory := do
  let memory ← memory.writeBytes offset (leBytes 4 pointer)
  memory.writeBytes (offset + 4) (leBytes 4 length)

/-- Writes a value into memory at an offset. -/
def lowerToMemory (layouts : List Layout) :
    Nat → Val → Ty → Memory → Nat → Answer Memory
  | 0, _, _, _, _ => .error .deeper
  | depth + 1, value, ty, memory, offset =>
      match value, ty with
      | .unit, .unit => .ok memory
      | .bool b, .bool => memory.writeBytes offset [if b then 1 else 0]
      | .int n, .int => memory.writeBytes offset (leBytes 8 n.toUInt64.toNat)
      | .str text, .str => do
          let (p, memory) ← allocText text memory
          writePair memory offset p (textBytes text).length
      | .list elements, .list element => do
          let stride ← elementStride layouts depth element
          let align ← alignOf layouts depth element
          let (p, memory) ← allocElements align stride
            (storeElements (lowerToMemory layouts depth) element stride) elements memory
          writePair memory offset p elements.length
      | value, .aggregate id =>
          lowerAggregateToMemory (alignOf layouts depth) (sizeOf layouts depth)
            (lowerToMemory layouts depth) layouts value id memory offset
      | _, .closure => .error (.error (.unsupported .closure))
      | _, .capability => .error (.error (.unsupported .capability))
      | _, _ => .error (.error .typeMismatch)

/-! ## To flat arguments -/

section Flat

variable (flatten : Ty → Answer (List FlatType))
  (lower : Val → Ty → List FlatType → Memory → Answer (List FlatArg × Memory))

/-- The flat arguments of some fields, one after the other. -/
def lowerFields : List Val → List Field → Memory → Answer (List FlatArg × Memory)
  | value :: values, field :: fields, memory => do
      let types ← flatten field.ty
      let (here, memory) ← lower value field.ty types memory
      let (rest, memory) ← lowerFields values fields memory
      .ok (here ++ rest, memory)
  | _, _, memory => .ok ([], memory)

/-- Widens what the join of the variants has widened. -/
def widen (types : List FlatType) : List FlatArg → List FlatArg
  | [] => []
  | arg :: args =>
      (if types.head? = some .i64 then .i64 arg.asI64 else arg) :: widen types.tail args

/-- Fills the slots up that only other variants have. -/
def pad (types : List FlatType) (args : List FlatArg) : List FlatArg :=
  args ++ (types.drop args.length).map FlatArg.zeroFor

def lowerAggregateFlat (layouts : List Layout) (value : Val) (id : LayoutId)
    (types : List FlatType) (memory : Memory) : Answer (List FlatArg × Memory) := do
  let layout ← layoutAt layouts id
  if layout.isTagged then
    match value with
    | .variant discriminant fields => do
        let variant ← variantAt layout discriminant
        let (payload, memory) ← lowerFields flatten lower fields variant.fields memory
        -- The first flat type is the discriminant's.
        .ok (.i32 (Int32.ofNat discriminant) :: pad types.tail (widen types.tail payload),
          memory)
    | _ => .error (.error .typeMismatch)
  else
    match value with
    | .record fields => do
        let variant ← variantAt layout 0
        lowerFields flatten lower fields variant.fields memory
    | _ => .error (.error .typeMismatch)

end Flat

/-- Lowers a value to its flat arguments. -/
def lowerFlat (layouts : List Layout) :
    Nat → Val → Ty → List FlatType → Memory → Answer (List FlatArg × Memory)
  | 0, _, _, _, _ => .error .deeper
  | depth + 1, value, ty, types, memory =>
      match value, ty with
      | .unit, .unit => .ok ([], memory)
      | .bool b, .bool => .ok ([.i32 (if b then 1 else 0)], memory)
      | .int n, .int => .ok ([.i64 n], memory)
      | .str text, .str => do
          let (p, memory) ← allocText text memory
          .ok ([.i32 (Int32.ofNat p), .i32 (Int32.ofNat (textBytes text).length)], memory)
      | .list elements, .list element => do
          let stride ← elementStride layouts depth element
          let align ← alignOf layouts depth element
          let (p, memory) ← allocElements align stride
            (storeElements (lowerToMemory layouts depth) element stride) elements memory
          .ok ([.i32 (Int32.ofNat p), .i32 (Int32.ofNat elements.length)], memory)
      | value, .aggregate id =>
          lowerAggregateFlat (flatten layouts depth) (lowerFlat layouts depth) layouts value id
            types memory
      | _, .closure => .error (.error (.unsupported .closure))
      | _, .capability => .error (.error (.unsupported .capability))
      | _, _ => .error (.error .typeMismatch)

/-- Lowers a value, by pointer where it has too many flat arguments. -/
def lower (layouts : List Layout) (depth : Nat) (value : Val) (ty : Ty) (memory : Memory) :
    Answer (List FlatArg × Memory) := do
  let types ← flatten layouts depth ty
  if MAX_FLAT < types.length then
    let size ← sizeOf layouts depth ty
    let align ← alignOf layouts depth ty
    let (p, memory) ← memory.alloc size align
    let memory ← lowerToMemory layouts depth value ty memory p
    .ok ([.i32 (Int32.ofNat p)], memory)
  else lowerFlat layouts depth value ty types memory

/-! ## Out of memory -/

section Loading

variable (alignOf sizeOf : Ty → Answer Nat) (load : Ty → Nat → Answer Val)

def loadFields : List Field → Nat → Answer (List Val)
  | [], _ => .ok []
  | field :: fields, offset => do
      let a ← alignOf field.ty
      let value ← load field.ty (alignUp offset a)
      let s ← sizeOf field.ty
      let values ← loadFields fields (alignUp offset a + s)
      .ok (value :: values)

def loadElements (element : Ty) (stride : Nat) : Nat → Nat → Answer (List Val)
  | 0, _ => .ok []
  | count + 1, offset => do
      let value ← load element offset
      let values ← loadElements element stride count (offset + stride)
      .ok (value :: values)

def liftAggregateFromMemory (layouts : List Layout) (id : LayoutId) (memory : Memory)
    (offset : Nat) : Answer Val := do
  let layout ← layoutAt layouts id
  if layout.isTagged then
    let ds := discriminantSize layout.variants.length
    let bytes ← memory.readBytes offset ds
    let disc := Wasm.littleEndian bytes
    if layout.variants.length ≤ disc then
      .error (.error (.invalidDiscriminant disc (layout.variants.length - 1)))
    else
      let variant ← variantAt layout disc
      let overall ← maxVariantAlign alignOf 1 layout.variants
      let fields ← loadFields alignOf sizeOf load variant.fields (offset + alignUp ds overall)
      .ok (.variant disc fields)
  else
    let variant ← variantAt layout 0
    let fields ← loadFields alignOf sizeOf load variant.fields offset
    .ok (.record fields)

end Loading

/-- The string of `length` bytes at a pointer. -/
def readText (memory : Memory) (pointer length : Nat) : Answer Val :=
  if length = 0 then .ok (.str "")
  else do
    let bytes ← memory.readBytes pointer length
    fromUtf8 bytes

/-- Lifts a value from a block of memory at an offset. -/
def liftFromMemory (layouts : List Layout) : Nat → Ty → Memory → Nat → Answer Val
  | 0, _, _, _ => .error .deeper
  | depth + 1, ty, memory, offset =>
      match ty with
      | .unit => .ok .unit
      | .bool => do
          let bytes ← memory.readBytes offset 1
          .ok (.bool (Wasm.littleEndian bytes != 0))
      | .int => do
          let bytes ← memory.readBytes offset 8
          .ok (.int (UInt64.ofNat (Wasm.littleEndian bytes)).toInt64)
      | .str => do
          let pointer ← memory.readBytes offset 4
          let length ← memory.readBytes (offset + 4) 4
          readText memory (Wasm.littleEndian pointer) (Wasm.littleEndian length)
      | .list element => do
          let pointer ← memory.readBytes offset 4
          let count ← memory.readBytes (offset + 4) 4
          let stride ← elementStride layouts depth element
          let elements ← loadElements (fun ty offset => liftFromMemory layouts depth ty memory
            offset) element stride (Wasm.littleEndian count) (Wasm.littleEndian pointer)
          .ok (.list elements)
      | .aggregate id =>
          liftAggregateFromMemory (alignOf layouts depth) (sizeOf layouts depth)
            (fun ty offset => liftFromMemory layouts depth ty memory offset) layouts id memory
            offset
      | .closure => .error (.error (.unsupported .closure))
      | .capability => .error (.error (.unsupported .capability))

/-! ## From flat arguments -/

/-- Some of the flat arguments, which have to be there. -/
def slice (flat : List FlatArg) (cursor length : Nat) : Answer (List FlatArg) :=
  if cursor + length ≤ flat.length then .ok ((flat.drop cursor).take length)
  else .error .panics

/-- Arguments with the types that they are wanted with. -/
def coerceFlat : List FlatArg → List FlatType → List FlatArg
  | arg :: args, .i32 :: types => .i32 arg.asI32 :: coerceFlat args types
  | arg :: args, .i64 :: types => .i64 arg.asI64 :: coerceFlat args types
  | _, _ => []

attribute [grind =] lowerFlat coerceFlat

section Lifting

variable (flatten : Ty → Answer (List FlatType)) (lift : List FlatArg → Ty → Answer Val)

def liftFields (flat : List FlatArg) : List Field → Nat → Answer (List Val)
  | [], _ => .ok []
  | field :: fields, cursor => do
      let types ← flatten field.ty
      let args ← slice flat cursor types.length
      let value ← lift (coerceFlat args types) field.ty
      let values ← liftFields flat fields (cursor + types.length)
      .ok (value :: values)

/-- The first argument as a `usize`, or nothing. -/
def firstUsize (flat : List FlatArg) : Nat :=
  (flat.head?).elim 0 fun arg => asUsize arg.asI32

def liftAggregateFlat (layouts : List Layout) (flat : List FlatArg) (id : LayoutId) :
    Answer Val := do
  let layout ← layoutAt layouts id
  if layout.isTagged then
    let disc := firstUsize flat
    if layout.variants.length ≤ disc then
      .error (.error (.invalidDiscriminant disc (layout.variants.length - 1)))
    else
      let variant ← variantAt layout disc
      let fields ← liftFields flatten lift flat variant.fields 1
      .ok (.variant disc fields)
  else
    let variant ← variantAt layout 0
    let fields ← liftFields flatten lift flat variant.fields 0
    .ok (.record fields)

end Lifting

/-- Lifts a value from its flat arguments. -/
def lift (layouts : List Layout) (memory : Memory) :
    Nat → List FlatArg → Ty → Answer Val
  | 0, _, _ => .error .deeper
  | depth + 1, flat, ty =>
      match ty with
      | .unit => .ok .unit
      | .bool => .ok (.bool ((flat.head?).any fun arg => arg.asI32 != 0))
      | .int => .ok (.int ((flat.head?).elim 0 FlatArg.asI64))
      | .str => readText memory (firstUsize flat) (firstUsize flat.tail)
      | .list element => do
          let stride ← elementStride layouts depth element
          let elements ← loadElements (fun ty offset => liftFromMemory layouts depth ty memory
            offset) element stride (firstUsize flat.tail) (firstUsize flat)
          .ok (.list elements)
      | .aggregate id =>
          liftAggregateFlat (flatten layouts depth) (lift layouts memory depth) layouts flat id
      | .closure => .error (.error (.unsupported .closure))
      | .capability => .error (.error (.unsupported .capability))

end Deed.Abi
