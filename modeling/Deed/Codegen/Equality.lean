import Deed.Library.Worklist
import Deed.Codegen.Pieces

/-!
# Comparing two values that live in memory

`crates/deed-codegen/src/equality.rs`: one function for each shape that lives in memory,
and the closure of the shapes a program compares under what they hold.
-/

namespace Deed.Codegen

open Deed.Wasm Deed.Mir Deed.Runtime Deed.Library

namespace Equality

/-- `(a, b) -> Bool`, for a value of one shape. -/
def signature : FuncType := ⟨[.i64, .i64], [.i32]⟩

/-- Whether a shape needs a function of its own to be compared. -/
def walked : Ty → Bool
  | .aggregate _ => true
  | .list _ => true
  | _ => false

/-- What one shape holds, once. -/
def heldBy (program : Program) : Ty → List Ty
  | .list element => [element]
  | .aggregate id =>
      (program.layout id).variants.flatMap fun variant => variant.fields.map Field.ty
  | _ => []

/-- What one shape holds that needs a function of its own. -/
def walkedIn (program : Program) (ty : Ty) : List Ty := (heldBy program ty).filter walked

/-- A type, and the types of the elements inside it. -/
def within : Ty → List Ty
  | .list element => .list element :: within element
  | ty => [ty]

/-- Every shape that the closure of some shapes can come to. -/
def reachable (program : Program) (found : List Ty) : List Ty :=
  (found ++ program.layouts.flatMap fun layout =>
    layout.variants.flatMap fun variant => variant.fields.map Field.ty).flatMap within

/-- Every shape a program compares two of, and every shape those hold, in the order they
were first reached. -/
def closeOver (program : Program) (found : List Ty) : Option (List Ty) :=
  Worklist.close (walkedIn program)
    ((reachable program found).length + found.length + 1) (.start found)

/-- Where each shape's comparison and the text helper are numbered. -/
structure Where where
  equals : List (Ty × UInt32)
  sameText : UInt32

def Where.call (at_ : Where) (ty : Ty) : Option Ins := callOf at_.equals ty

/-- Both parameters as narrow addresses, the left one in 2 and the right one in 3. -/
def narrowed : List Ins :=
  [.localGet 0, .i32WrapI64, .localSet 2, .localGet 1, .i32WrapI64, .localSet 3]

/-- Reads one word out of each side, at the same offset. -/
def both (offset : UInt32) : List Ins :=
  [.localGet 2, .i64Load offset, .localGet 3, .i64Load offset]

/-- Answers `false` unless what `test` pushes holds. -/
def unless_ (test : List Ins) : List Ins :=
  test ++ [.i32Eqz, .if_ none [.i32Const 0, .return_] []]

/-- What compares two words of a type, where there is something that does. -/
def compares (ty : Ty) (at_ : Where) : Option Ins :=
  if ty = .str then some (.call at_.sameText)
  else if walked ty then at_.call ty
  else some .i64Eq

/-- Whether the two words at `offset` are equal, for a field of type `ty`. -/
def field (offset : UInt32) (ty : Ty) (at_ : Where) : List Ins :=
  match compares ty at_ with
  | some compare => unless_ (both offset ++ [compare])
  | none => [.i32Const 0, .return_]

/-- The fields of one variant from a position on. -/
def fields (tagged : Bool) (at_ : Where) : List Field → Nat → List Ins
  | [], _ => []
  | one :: rest, position =>
      field (fieldOffset tagged position) one.ty at_ ++ fields tagged at_ rest (position + 1)

/-- A record or a choice: the tag first, then every field of the variant it turned out to
hold. -/
def aggregate (program : Program) (id : LayoutId) (at_ : Where) :
    List ValType × List Ins :=
  let held := program.layout id
  let tagged := held.isTagged
  ([.i32, .i32], seq [
    narrowed,
    if tagged then unless_ (both 0 ++ [.i64Eq]) else [],
    arms 2 tagged (held.variants.map fun variant => fields tagged at_ variant.fields 0) 0,
    [.i32Const 1, .return_]])

/-- Compares the elements, with the counter in 5 and the count in 4. -/
def walk (compare : Ins) : List Ins :=
  countTo 5 4
    (unless_ (seq [elementAt 2 5, [.i64Load 0], elementAt 3 5, [.i64Load 0, compare]]))

/-- A list: the same length, then every element. -/
def list (element : Ty) (at_ : Where) : List ValType × List Ins :=
  let locals : List ValType := [.i32, .i32, .i32, .i32]
  let length := narrowed ++ unless_ (both 0 ++ [.i64Eq])
  -- A list of nothing is as equal as its length says.
  if element = .unit then (locals, length ++ [.i32Const 1, .return_])
  else
    match compares element at_ with
    | none => (locals, [.i32Const 0, .return_])
    | some compare =>
        (locals, seq [
          length,
          [.localGet 2, .i64Load 0, .i32WrapI64, .localSet 4],
          walk compare,
          [.i32Const 1, .return_]])

/-- The locals beyond the parameters, and the body. -/
def compile (program : Program) (ty : Ty) (at_ : Where) : List ValType × List Ins :=
  match ty with
  | .aggregate id => aggregate program id at_
  | .list element => list element at_
  | _ => ([], [.i32Const 0, .return_])

/-- Whether comparing these shapes needs the text helper anywhere inside. -/
def needsText (program : Program) (shapes : List Ty) : Bool :=
  shapes.any fun ty => (heldBy program ty).any fun held => held == .str

/-! ## The closure -/

variable {program : Program} {ty held inner : Ty} {found shapes : List Ty}

theorem mem_within (ty : Ty) : ty ∈ within ty := by
  cases ty <;> exact List.mem_cons_self

theorem within_trans (inside : held ∈ within ty) (deeper : inner ∈ within held) :
    inner ∈ within ty := by
  induction ty with
  | list element ih =>
      rcases List.mem_cons.1 inside with rfl | inside
      · exact deeper
      · exact List.mem_cons_of_mem _ (ih inside)
  | _ => rwa [List.mem_singleton.1 inside] at deeper

theorem mem_reachable (present : ty ∈ found) : ty ∈ reachable program found :=
  List.mem_flatMap.2 ⟨ty, List.mem_append_left _ present, mem_within ty⟩

theorem reachable_heldBy (reached : ty ∈ reachable program found)
    (holds : held ∈ heldBy program ty) : held ∈ reachable program found := by
  cases ty with
  | list element =>
      rcases List.mem_flatMap.1 reached with ⟨outer, listed, inside⟩
      rw [List.mem_singleton.1 holds]
      exact List.mem_flatMap.2 ⟨outer, listed,
        within_trans inside (List.mem_cons_of_mem _ (mem_within element))⟩
  | aggregate id =>
      refine List.mem_flatMap.2 ⟨held, List.mem_append_right _ ?_, mem_within held⟩
      rw [heldBy, Program.layout, List.getD_eq_getElem?_getD] at holds
      cases there : program.layouts[id]? with
      | none =>
          rw [there] at holds
          exact absurd holds List.not_mem_nil
      | some layout =>
          rw [there] at holds
          exact List.mem_flatMap.2 ⟨layout, List.mem_of_getElem? there, holds⟩
  | unit | bool | int | str | capability | closure => exact absurd holds List.not_mem_nil

/-- The loop ends. -/
theorem closeOver_ends (program : Program) (found : List Ty) :
    ∃ shapes, closeOver program found = some shapes := by
  apply Worklist.close_ends (reachable program found).toFinset
  · intro shape reached held holds
    exact List.mem_toFinset.2
      (reachable_heldBy (List.mem_toFinset.1 reached) (List.mem_of_mem_filter holds))
  · intro shape waiting
    exact List.mem_toFinset.2 (mem_reachable (List.mem_reverse.1 waiting))
  · have most := (Finset.card_le_card
      (@Finset.sdiff_subset _ _ (reachable program found).toFinset
        found.toFinset)).trans (List.toFinset_card_le _)
    rw [Worklist.left, Worklist.start, List.length_reverse]
    exact Nat.lt_succ_of_le (Nat.add_le_add_right most found.length)

theorem closeOver_holds (closes : closeOver program found = some shapes) :
    (∀ ty ∈ found, ty ∈ shapes) ∧
      ∀ ty ∈ shapes, ∀ held ∈ heldBy program ty, walked held = true → held ∈ shapes := by
  rcases Worklist.close_closed (.start found) closes with ⟨kept, closed⟩
  refine ⟨kept, fun ty present held holds walks => ?_⟩
  exact closed ty present held (List.mem_filter.2 ⟨holds, walks⟩)

end Equality

end Deed.Codegen
