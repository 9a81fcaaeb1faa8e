import Mathlib

/-!
# The canonical layout of component values

How the WebAssembly component model lays the values of its types out in memory and flattens
them: alignments, sizes, offsets and core types, for the types that are made of booleans,
signed 64-bit integers, strings, lists, records and variants.  A case of a variant that has
several values has a tuple of them, which is laid out as a record is.
-/

namespace Deed.Library.ComponentModel

/-- A core type. -/
inductive Core where
  | i32
  | i64
deriving DecidableEq, Repr

inductive ValType where
  | bool
  | s64
  | string
  | list (element : ValType)
  | record (fields : List ValType)
  | variant (cases : List ValType)

/-- The next multiple of an alignment. -/
def alignTo (pointer alignment : Nat) : Nat := (pointer + alignment - 1) / alignment * alignment

/-- How many bytes the discriminant of so many cases has: as many as their index has, but never
none and never three. -/
def discriminantSize (cases : Nat) : Nat :=
  match (Nat.clog 2 cases + 7) / 8 with
  | 0 => 1
  | 1 => 1
  | 2 => 2
  | _ => 4

mutual

def alignment : ValType → Nat
  | .bool => 1
  | .s64 => 8
  | .string => 4
  | .list _ => 4
  | .record fields => maxAlignment fields
  | .variant cases => max (discriminantSize cases.length) (maxAlignment cases)

/-- The widest alignment of some types. -/
def maxAlignment : List ValType → Nat
  | [] => 1
  | type :: types => max (alignment type) (maxAlignment types)

end

mutual

def elemSize : ValType → Nat
  | .bool => 1
  | .s64 => 8
  | .string => 8
  | .list _ => 8
  | .record fields => alignTo (recordEnd 0 fields) (maxAlignment fields)
  | .variant cases =>
      alignTo (alignTo (discriminantSize cases.length) (maxAlignment cases) + maxSize cases)
        (max (discriminantSize cases.length) (maxAlignment cases))

/-- Where the fields of a record end that begin at a pointer. -/
def recordEnd (pointer : Nat) : List ValType → Nat
  | [] => pointer
  | type :: types => recordEnd (alignTo pointer (alignment type) + elemSize type) types

/-- The greatest size of some types. -/
def maxSize : List ValType → Nat
  | [] => 0
  | type :: types => max (elemSize type) (maxSize types)

end

/-- The core type that holds what either of two does. -/
def join (first second : Core) : Core := if first = second then first else .i64

/-- The flat types of one more case, put into those of the cases before it. -/
def joinInto : List Core → List Core → List Core
  | flat, [] => flat
  | [], more => more
  | first :: flat, second :: more => join first second :: joinInto flat more

mutual

def flatten : ValType → List Core
  | .bool => [.i32]
  | .s64 => [.i64]
  | .string => [.i32, .i32]
  | .list _ => [.i32, .i32]
  | .record fields => flattenFields fields
  | .variant cases => .i32 :: flattenCases [] cases

def flattenFields : List ValType → List Core
  | [] => []
  | type :: types => flatten type ++ flattenFields types

def flattenCases (flat : List Core) : List ValType → List Core
  | [] => flat
  | type :: types => flattenCases (joinInto flat (flatten type)) types

end

/-! ## Offsets -/

/-- Where the fields of a record are stored that begins at a pointer. -/
def fieldOffsets (pointer : Nat) : List ValType → List Nat
  | [] => []
  | type :: types =>
      alignTo pointer (alignment type) ::
        fieldOffsets (alignTo pointer (alignment type) + elemSize type) types

/-- Where the payload of a variant is stored that begins at a pointer. -/
def payloadOffset (pointer : Nat) (cases : List ValType) : Nat :=
  alignTo (pointer + discriminantSize cases.length) (maxAlignment cases)

/-! ## Alignments -/

theorem discriminantSize_eq (cases : Nat) :
    discriminantSize cases =
      if cases ≤ 2 ^ 8 then 1 else if cases ≤ 2 ^ 16 then 2 else 4 := by
  have bits : ∀ count, Nat.clog 2 cases ≤ count ↔ cases ≤ 2 ^ count := fun count =>
    Nat.clog_le_iff_le_pow (by decide)
  unfold discriminantSize
  split_ifs with one two
  · have few := (bits 8).mpr one
    have small : (Nat.clog 2 cases + 7) / 8 = 0 ∨ (Nat.clog 2 cases + 7) / 8 = 1 := by omega
    rcases small with zero | one
    · rw [zero]
      rfl
    · rw [one]
      rfl
  · have many := mt (bits 8).mp one
    have few := (bits 16).mpr two
    have small : (Nat.clog 2 cases + 7) / 8 = 2 := by omega
    rw [small]
    rfl
  · have many := mt (bits 16).mp two
    obtain ⟨more, large⟩ : ∃ more, (Nat.clog 2 cases + 7) / 8 = more + 3 :=
      ⟨(Nat.clog 2 cases + 7) / 8 - 3, by omega⟩
    rw [large]
    rfl

/-- The powers of two that alignments are. -/
def IsAlignment (size : Nat) : Prop := size = 1 ∨ size = 2 ∨ size = 4 ∨ size = 8

theorem IsAlignment.max {first second : Nat} (left : IsAlignment first)
    (right : IsAlignment second) : IsAlignment (max first second) := by
  rcases le_total first second with less | less
  · rw [max_eq_right less]
    exact right
  · rw [max_eq_left less]
    exact left

theorem IsAlignment.dvd {first second : Nat} (left : IsAlignment first)
    (right : IsAlignment second) (less : first ≤ second) : first ∣ second := by
  rcases left with rfl | rfl | rfl | rfl
  all_goals rcases right with rfl | rfl | rfl | rfl
  all_goals omega

theorem isAlignment_discriminant (cases : Nat) : IsAlignment (discriminantSize cases) := by
  rw [discriminantSize_eq]
  split_ifs
  · exact Or.inl rfl
  · exact Or.inr (Or.inl rfl)
  · exact Or.inr (Or.inr (Or.inl rfl))

mutual

theorem isAlignment : (type : ValType) → IsAlignment (alignment type)
  | .bool => Or.inl rfl
  | .s64 => Or.inr (Or.inr (Or.inr rfl))
  | .string => Or.inr (Or.inr (Or.inl rfl))
  | .list _ => Or.inr (Or.inr (Or.inl rfl))
  | .record fields => by
      rw [alignment]
      exact isAlignment_max fields
  | .variant cases => by
      rw [alignment]
      exact (isAlignment_discriminant _).max (isAlignment_max cases)

theorem isAlignment_max : (types : List ValType) → IsAlignment (maxAlignment types)
  | [] => Or.inl rfl
  | type :: types => by
      rw [maxAlignment]
      exact (isAlignment type).max (isAlignment_max types)

end

theorem IsAlignment.pos {size : Nat} (power : IsAlignment size) : 0 < size := by
  rcases power with rfl | rfl | rfl | rfl
  all_goals decide

theorem dvd_alignTo (pointer alignment : Nat) : alignment ∣ alignTo pointer alignment :=
  Dvd.intro_left _ rfl

/-- A size is a multiple of the alignment. -/
theorem alignment_dvd_elemSize (type : ValType) : alignment type ∣ elemSize type := by
  cases type with
  | bool => exact dvd_refl 1
  | s64 => exact dvd_refl 8
  | string => exact ⟨2, rfl⟩
  | list element => exact ⟨2, rfl⟩
  | record fields =>
      rw [alignment, elemSize]
      exact dvd_alignTo _ _
  | variant cases =>
      rw [alignment, elemSize]
      exact dvd_alignTo _ _

end Deed.Library.ComponentModel
