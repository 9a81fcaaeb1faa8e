import Deed.Codegen.Pieces

/-!
# What the words of a compiled program stand for

A value of the middle representation's types as the tree that it is, and when the word
that travels for it, with the memory behind it, holds that tree.  A value that lives in
memory is known by its address; one of type `Unit` has no representation, and where it is
a field or an element the word kept for it was never written and is zero.
-/

namespace Deed.Codegen

open Deed.Wasm Deed.Mir Deed.Runtime

/-- A value, without the addresses its parts happen to have. -/
inductive Datum where
  | unit
  | bool (yes : Bool)
  | int (number : Int)
  | text (text : String)
  | list (elements : List Datum)
  /-- A record, or the variant of a choice at an index. -/
  | made (variant : Nat) (fields : List Datum)
  /-- A handle, which is the number the host gave out. -/
  | capability (handle : Int)
  /-- A function value, which is the word it travels in. -/
  | closure (word : Int)

namespace Datum

/-- Induction over what a datum holds. -/
theorem induct {holds : Datum → Prop}
    (step : ∀ datum, (∀ inner, sizeOf inner < sizeOf datum → holds inner) → holds datum)
    (datum : Datum) : holds datum :=
  (measure sizeOf).wf.induction datum step

theorem sizeOf_element {elements : List Datum} {inner : Datum} (held : inner ∈ elements) :
    sizeOf inner < sizeOf (list elements) := by
  have smaller := List.sizeOf_lt_of_mem held
  rw [list.sizeOf_spec]
  omega

theorem sizeOf_field {variant : Nat} {fields : List Datum} {inner : Datum}
    (held : inner ∈ fields) : sizeOf inner < sizeOf (made variant fields) := by
  have smaller := List.sizeOf_lt_of_mem held
  rw [made.sizeOf_spec]
  omega

end Datum

section Holds

variable (program : Program) (memory : Memory)

mutual

/-- A word of a type holds a datum. -/
def Holds : Datum → Ty → Int → Prop
  | .unit, ty, word => ty = .unit ∧ word = 0
  | .bool yes, ty, word => ty = .bool ∧ word = if yes then 1 else 0
  | .int number, ty, word => ty = .int ∧ word = number ∧ Fits64 number
  | .capability handle, ty, word => ty = .capability ∧ word = handle ∧ Fits64 handle
  | .closure held, ty, word => ty = .closure ∧ word = held ∧ Fits64 held
  | .text text, ty, word =>
      ty = .str ∧ ∃ address : Nat, word = address ∧ StringAt memory address text
  | .list elements, ty, word =>
      ∃ element, ty = .list element ∧ ∃ address : Nat, word = address ∧
        memory.read address = some (elements.length : Int) ∧
        HoldsRow elements (List.replicate elements.length element) (address + ELEMENTS)
  | .made variant fields, ty, word =>
      ∃ id, ty = .aggregate id ∧
        ∃ held, (program.layout id).variants[variant]? = some held ∧
        ∃ address : Nat, word = address ∧ address ≤ memory.size ∧
        ((program.layout id).isTagged = true →
          memory.read address = some (variant : Int)) ∧
        HoldsRow fields (held.fields.map Field.ty)
          (address + if (program.layout id).isTagged then WORD else 0)

/-- Words in a row hold some data. -/
def HoldsRow : List Datum → List Ty → Nat → Prop
  | [], [], _ => True
  | datum :: data, ty :: types, address =>
      (∃ word, memory.read address = some word ∧ Holds datum ty word) ∧
        HoldsRow data types (address + WORD)
  | _, _, _ => False

end

attribute [grind =] Holds HoldsRow

end Holds

variable {program : Program} {memory : Memory} {datum : Datum} {data : List Datum}
  {ty : Ty} {types : List Ty} {word : Int} {address : Nat}

/-! ## Words -/

theorem read_fits {number : Int} (reads : memory.read address = some number) :
    Fits64 number := by
  rw [Memory.read] at reads
  rcases Option.map_eq_some_iff.1 reads with ⟨value, -, rfl⟩
  exact ⟨Int64.le_toInt value, Int64.toInt_lt value⟩

theorem read_inside {number : Int} (reads : memory.read address = some number) :
    address + 8 ≤ memory.size := by
  rw [Memory.read, Memory.load] at reads
  by_contra outside
  rw [if_neg outside] at reads
  exact absurd reads.symm (Option.some_ne_none number)

theorem size_small {engine : Engine} (pages : memory.pages ≤ engine.ceiling) :
    memory.size ≤ 2 ^ 30 := by
  have most := engine.small
  rw [Memory.size, page]
  omega

/-- A word that needs no walk fits, and holds one datum. -/
theorem Holds.fits (holds : Holds program memory datum ty word)
    (small : memory.size ≤ 2 ^ 30) : Fits64 word := by
  have inside : ∀ {address : Nat}, address ≤ 2 ^ 30 → Fits64 (address : Int) := by
    intro address below
    constructor <;> omega
  cases datum with
  | unit =>
      rw [Holds] at holds
      rw [holds.2]
      constructor <;> decide
  | bool yes =>
      rw [Holds] at holds
      rw [holds.2]
      cases yes <;> constructor <;> decide
  | int number =>
      rw [Holds] at holds
      rw [holds.2.1]
      exact holds.2.2
  | capability handle =>
      rw [Holds] at holds
      rw [holds.2.1]
      exact holds.2.2
  | closure held =>
      rw [Holds] at holds
      rw [holds.2.1]
      exact holds.2.2
  | text text =>
      rw [Holds] at holds
      rcases holds.2 with ⟨address, rfl, string⟩
      have room := string.room
      exact inside (by omega)
  | list elements =>
      rw [Holds] at holds
      rcases holds with ⟨element, -, address, rfl, reads, -⟩
      have room := read_inside reads
      exact inside (by omega)
  | made variant fields =>
      rw [Holds] at holds
      rcases holds with ⟨id, -, held, -, address, rfl, room, -⟩
      exact inside (by omega)

/-- What a word of a record or of a choice holds. -/
theorem Holds.ofAggregate {id : LayoutId}
    (holds : Holds program memory datum (.aggregate id) word) :
    ∃ variant fields held, datum = .made variant fields ∧
      (program.layout id).variants[variant]? = some held ∧
      ∃ address : Nat, word = address ∧ address ≤ memory.size ∧
      ((program.layout id).isTagged = true → memory.read address = some (variant : Int)) ∧
      HoldsRow program memory fields (held.fields.map Field.ty)
        (address + if (program.layout id).isTagged then WORD else 0) := by
  cases datum with
  | made variant fields =>
      rw [Holds] at holds
      rcases holds with ⟨id', same, held, found, address, rfl, room, tag, row⟩
      cases same
      exact ⟨variant, fields, held, rfl, found, address, rfl, room, tag, row⟩
  | list elements =>
      rw [Holds] at holds
      rcases holds with ⟨element, impossible, -⟩
      exact absurd impossible Ty.noConfusion
  | _ =>
      rw [Holds] at holds
      exact absurd holds.1 Ty.noConfusion

/-- What a word of a list holds. -/
theorem Holds.ofList {element : Ty} (holds : Holds program memory datum (.list element) word) :
    ∃ elements, datum = .list elements ∧ ∃ address : Nat, word = address ∧
      memory.read address = some (elements.length : Int) ∧
      HoldsRow program memory elements (List.replicate elements.length element)
        (address + ELEMENTS) := by
  cases datum with
  | list elements =>
      rw [Holds] at holds
      rcases holds with ⟨element', same, address, rfl, reads, row⟩
      cases same
      exact ⟨elements, rfl, address, rfl, reads, row⟩
  | made variant fields =>
      rw [Holds] at holds
      rcases holds with ⟨id, impossible, -⟩
      exact absurd impossible Ty.noConfusion
  | _ =>
      rw [Holds] at holds
      exact absurd holds.1 Ty.noConfusion

/-- What a word of a string holds. -/
theorem Holds.ofText (holds : Holds program memory datum .str word) :
    ∃ text, datum = .text text ∧ ∃ address : Nat, word = address ∧
      StringAt memory address text := by
  cases datum with
  | text text =>
      rw [Holds] at holds
      rcases holds.2 with ⟨address, rfl, string⟩
      exact ⟨text, rfl, address, rfl, string⟩
  | list elements =>
      rw [Holds] at holds
      rcases holds with ⟨element, impossible, -⟩
      exact absurd impossible Ty.noConfusion
  | made variant fields =>
      rw [Holds] at holds
      rcases holds with ⟨id, impossible, -⟩
      exact absurd impossible Ty.noConfusion
  | _ =>
      rw [Holds] at holds
      exact absurd holds.1 Ty.noConfusion

/-- Words in a row end inside the memory. -/
theorem HoldsRow.inside (row : HoldsRow program memory data types address)
    (start : address ≤ memory.size) : address + data.length * WORD ≤ memory.size := by
  induction data generalizing types address with
  | nil =>
      rw [List.length_nil, Nat.zero_mul]
      exact start
  | cons datum data ih =>
      cases types with
      | nil => exact absurd row (by simp [HoldsRow])
      | cons ty types =>
          rw [HoldsRow] at row
          rcases row.1 with ⟨word, reads, -⟩
          have further := ih row.2 (read_inside reads)
          rw [List.length_cons, Nat.succ_mul]
          omega

/-- The word at an index of some words in a row. -/
theorem HoldsRow.get {index : Nat} (row : HoldsRow program memory data types address)
    (found : data[index]? = some datum) (typed : types[index]? = some ty) :
    ∃ word, memory.read (address + index * WORD) = some word ∧
      Holds program memory datum ty word := by
  induction data generalizing types address index with
  | nil => exact absurd found.symm (Option.some_ne_none datum)
  | cons first data ih =>
      cases types with
      | nil => exact absurd typed.symm (Option.some_ne_none ty)
      | cons type types =>
          rw [HoldsRow] at row
          cases index with
          | zero =>
              cases found
              cases typed
              rw [Nat.zero_mul]
              exact row.1
          | succ index =>
              rw [Nat.succ_mul, Nat.add_comm (index * WORD), ← Nat.add_assoc]
              exact ih row.2 found typed

/-- Elements of type `Unit` are all the same. -/
theorem HoldsRow.units (row : HoldsRow program memory data
    (List.replicate data.length .unit) address) :
    data = List.replicate data.length .unit := by
  apply List.eq_replicate_of_mem
  intro datum present
  rcases List.mem_iff_getElem?.1 present with ⟨index, found⟩
  have inside := (List.getElem?_eq_some_iff.1 found).1
  have typed : (List.replicate data.length Ty.unit)[index]? = some .unit := by
    rw [List.getElem?_replicate, if_pos inside]
  rcases row.get found typed with ⟨word, -, holds⟩
  cases datum with
  | unit => rfl
  | list elements =>
      rw [Holds] at holds
      rcases holds with ⟨element, impossible, -⟩
      exact absurd impossible Ty.noConfusion
  | made variant fields =>
      rw [Holds] at holds
      rcases holds with ⟨id, impossible, -⟩
      exact absurd impossible Ty.noConfusion
  | _ =>
      rw [Holds] at holds
      exact absurd holds.1 Ty.noConfusion

/-- A layout without a tag has one variant at most. -/
theorem untagged_variant {layout : Layout} {variant : Nat} {held : Variant}
    (untagged : layout.isTagged = false) (found : layout.variants[variant]? = some held) :
    variant = 0 := by
  have inside : variant < layout.variants.length := (List.getElem?_eq_some_iff.1 found).1
  have one : layout.variants.length ≤ 1 := Nat.not_lt.1 (of_decide_eq_false untagged)
  omega

end Deed.Codegen
