import Deed.Ast
import Deed.Library.Pairing

/-!
# What one module lets another see

`crates/deed-resolve/src/exports.rs`, as far as a row goes: the names a module exports, what
kind of thing each is and what it declares it performs, from the syntax alone.
-/

namespace Deed.Resolve

open Deed.Library

/-! ## The syntax it is read from -/

/-- `Ledger`, `Ledger.read`, or `sys.*`. -/
structure EffectRef where
  effect : String
  operation : Option String
  all : Bool
deriving DecidableEq, Repr

/-- One line of a module's imports. -/
structure UseDecl where
  path : String
  names : List String
deriving DecidableEq, Repr

/-- A function, with the statements of its body as they are written. -/
structure FnDecl where
  name : String
  rows : List String
  uses : List EffectRef
  body : List String
  span : Ast.Span
deriving DecidableEq, Repr

structure HandlerDecl where
  name : String
  effect : String
  operations : List FnDecl
deriving DecidableEq, Repr

inductive Item where
  | deprecated
  | operator
  | typeAlias (name : String)
  | record (name : String)
  | choice (name : String) (variants : List String)
  | effect (name : String) (rows : List String)
  | handler (decl : HandlerDecl)
  | function (decl : FnDecl)
  | test
deriving DecidableEq, Repr

structure Module where
  name : Option String
  uses : List UseDecl
  items : List Item
deriving DecidableEq, Repr

/-! ## Rows -/

/-- The effects the language provides. -/
def PRELUDE_EFFECTS : List String := ["Io", "Diverge"]

/-- The module path builtins are named under. -/
def PRELUDE_MODULE : String := "<prelude>"

/-- One entry of an exported row; `operation` is nothing for the whole effect. -/
structure RowEntry where
  module : String
  effect : String
  operation : Option String
  variable_ : Bool
deriving DecidableEq, Repr

/-- Rows are ordered field by field, a whole effect before its operations. -/
instance : LT RowEntry where
  lt left right :=
    left.module < right.module ∨ left.module = right.module ∧
      (left.effect < right.effect ∨ left.effect = right.effect ∧
        (left.operation.toList < right.operation.toList ∨ left.operation = right.operation ∧
          left.variable_ < right.variable_))

instance : DecidableLT RowEntry := fun left right =>
  inferInstanceAs (Decidable (left.module < right.module ∨ left.module = right.module ∧
    (left.effect < right.effect ∨ left.effect = right.effect ∧
      (left.operation.toList < right.operation.toList ∨ left.operation = right.operation ∧
        left.variable_ < right.variable_))))

/-- Turns a `uses` clause into the portable form, from syntax alone. -/
structure RowLowering where
  here : String
  origins : List (String × String)
  variables_ : List String

def RowLowering.of (module : Module) : RowLowering where
  here := module.name.getD ""
  origins := module.uses.foldl (fun origins entry =>
    entry.names.foldl (fun origins name => Assoc.insert origins name entry.path) origins) []
  variables_ := []

/-- Points this at one declaration's row variables. -/
def RowLowering.declaring (rows : RowLowering) (declared : List String) : RowLowering :=
  { rows with variables_ := declared }

/-- The portable form of one entry. -/
def RowLowering.entry (rows : RowLowering) (ref : EffectRef) : RowEntry where
  module :=
    if ref.effect ∈ rows.variables_ then rows.here
    else
      match Assoc.find? rows.origins ref.effect with
      | some path => path
      | none => if ref.effect ∈ PRELUDE_EFFECTS then PRELUDE_MODULE else rows.here
  effect := ref.effect
  operation := ref.operation
  variable_ := decide (ref.effect ∈ rows.variables_)

/-- An entry that is lowered: one with a star is left out, and so is one without a name. -/
def EffectRef.listed (ref : EffectRef) : Bool := !ref.all && !ref.effect.isEmpty

/-- The entries, and whether they are the whole story. -/
def RowLowering.row (rows : RowLowering) (uses : List EffectRef) : List RowEntry × Bool :=
  ((uses.filter EffectRef.listed).map rows.entry, uses.all fun ref => !ref.all)

/-! ## Exports -/

/-- What kind of thing a name refers to on the other side of an import. -/
inductive ExportKind where
  | type | record | choice | variant | effect | handler | function
deriving DecidableEq, Repr

/-- One exported name: its kind and what it declares it does. -/
structure Export where
  kind : ExportKind
  row : List RowEntry
  rowComplete : Bool
deriving DecidableEq, Repr

/-- The export of something that performs nothing. -/
def Export.plain (kind : ExportKind) : Export := ⟨kind, [], true⟩

/-- The row variables an item declares for its effect. -/
def Item.effectRow : Item → Option (String × List String)
  | .effect name rows => some (name, rows)
  | _ => none

/-- The row variables of every effect the module declares. -/
def effectRows (module : Module) : List (String × List String) :=
  Assoc.insertAll [] (module.items.filterMap Item.effectRow)

/-- What implementing the effect performs, operation after operation. -/
def handlerRow (rows : RowLowering) (decl : HandlerDecl) : List RowEntry × Bool :=
  decl.operations.foldl (fun row operation =>
    let lowered := rows.row operation.uses
    (row.1 ++ lowered.1, row.2 && lowered.2)) ([], true)

/-- The lowering for one handler: its effect's row variables are the ones it may name. -/
def forHandler (module : Module) (decl : HandlerDecl) : RowLowering :=
  (RowLowering.of module).declaring ((Assoc.find? (effectRows module) decl.effect).getD [])

/-- The lowering for one function. -/
def forFunction (module : Module) (decl : FnDecl) : RowLowering :=
  (RowLowering.of module).declaring decl.rows

/-- What one item exports; a `test` is not part of the surface. -/
def exportsOf (module : Module) : Item → List (String × Export)
  | .deprecated | .operator | .test => []
  | .typeAlias name => [(name, .plain .type)]
  | .record name => [(name, .plain .record)]
  | .choice name variants =>
      variants.map (fun variant => (variant, Export.plain .variant)) ++
        [(name, .plain .choice)]
  | .effect name _ => [(name, .plain .effect)]
  | .handler decl =>
      let row := handlerRow (forHandler module decl) decl
      [(decl.name, ⟨.handler, addAll [] row.1, row.2⟩)]
  | .function decl =>
      let row := (forFunction module decl).row decl.uses
      [(decl.name, ⟨.function, row.1, row.2⟩)]

/-- Everything one module offers, in the order of the names. -/
def Exports.of (module : Module) : List (String × Export) :=
  Assoc.insertAll [] (module.items.flatMap (exportsOf module))

/-! ## What they say -/

/-- The names an item declares. -/
def Item.names : Item → List String
  | .deprecated | .operator | .test => []
  | .typeAlias name | .record name => [name]
  | .choice name variants => variants ++ [name]
  | .effect name _ => [name]
  | .handler decl => [decl.name]
  | .function decl => [decl.name]

/-- An item is a function or a handler of that name with an entry that is listed. -/
inductive Item.Performs (module : Module) : Item → String → RowEntry → Prop
  | function {decl : FnDecl} {ref : EffectRef} (written : ref ∈ decl.uses)
      (listed : ref.listed = true) :
      Item.Performs module (.function decl) decl.name ((forFunction module decl).entry ref)
  | handler {decl : HandlerDecl} {operation : FnDecl} {ref : EffectRef}
      (implemented : operation ∈ decl.operations) (written : ref ∈ operation.uses)
      (listed : ref.listed = true) :
      Item.Performs module (.handler decl) decl.name ((forHandler module decl).entry ref)

theorem exportsOf_names (module : Module) (item : Item) :
    (exportsOf module item).map Prod.fst = item.names := by
  cases item with
  | choice name variants =>
      rw [exportsOf, List.map_append, List.map_map, Item.names]
      congr 1
      exact List.map_id _
  | _ => rfl

theorem mem_row {rows : RowLowering} {uses : List EffectRef} {entry : RowEntry} :
    entry ∈ (rows.row uses).1 ↔
      ∃ ref ∈ uses, ref.listed = true ∧ rows.entry ref = entry := by
  simp only [RowLowering.row, List.mem_map, List.mem_filter, and_assoc]

theorem mem_handlerRow {rows : RowLowering} {decl : HandlerDecl} {entry : RowEntry} :
    entry ∈ (handlerRow rows decl).1 ↔
      ∃ operation ∈ decl.operations, entry ∈ (rows.row operation.uses).1 := by
  have whole : ∀ (operations : List FnDecl) (start : List RowEntry × Bool),
      entry ∈ (operations.foldl (fun row operation =>
        let lowered := rows.row operation.uses
        (row.1 ++ lowered.1, row.2 && lowered.2)) start).1 ↔
      entry ∈ start.1 ∨ ∃ operation ∈ operations, entry ∈ (rows.row operation.uses).1 := by
    intro operations
    induction operations with
    | nil => simp
    | cons first rest ih =>
        intro start
        rw [List.foldl_cons, ih]
        simp only [List.mem_append, List.exists_mem_cons_iff, or_assoc]
  rw [handlerRow, whole]
  simp

/-- What an item's exports perform is what is written in it. -/
theorem performs_iff {module : Module} {item : Item} {name : String} {entry : RowEntry} :
    Item.Performs module item name entry ↔
      ∃ offered : Export, (name, offered) ∈ exportsOf module item ∧
        offered.kind ∈ [ExportKind.function, ExportKind.handler] ∧ entry ∈ offered.row := by
  constructor
  · rintro (⟨written, listed⟩ | ⟨implemented, written, listed⟩)
    · exact ⟨_, List.mem_singleton.2 rfl, List.mem_cons_self, mem_row.2 ⟨_, written, listed, rfl⟩⟩
    · refine ⟨_, List.mem_singleton.2 rfl, List.mem_cons_of_mem _ List.mem_cons_self, ?_⟩
      apply mem_addAll.2 ∘ Or.inr
      exact mem_handlerRow.2 ⟨_, implemented, mem_row.2 ⟨_, written, listed, rfl⟩⟩
  · rintro ⟨offered, member, kind, performed⟩
    cases item with
    | function decl =>
        cases List.mem_singleton.1 member
        obtain ⟨ref, written, listed, rfl⟩ := mem_row.1 performed
        exact Item.Performs.function written listed
    | handler decl =>
        cases List.mem_singleton.1 member
        rcases mem_addAll.1 performed with absurdity | performed
        · cases absurdity
        · obtain ⟨operation, implemented, performed⟩ := mem_handlerRow.1 performed
          obtain ⟨ref, written, listed, rfl⟩ := mem_row.1 performed
          exact Item.Performs.handler implemented written listed
    | choice choice variants =>
        rcases List.mem_append.1 member with member | member
        · obtain ⟨variant, -, same⟩ := List.mem_map.1 member
          cases same
          cases performed
        · cases List.mem_singleton.1 member
          cases performed
    | typeAlias _ | record _ | effect _ _ =>
        cases List.mem_singleton.1 member
        cases performed
    | deprecated | operator | test => cases member

/-- Where no name is declared twice, everything offered is exported as it is offered. -/
theorem mem_exports {module : Module} (distinct : (module.items.flatMap Item.names).Nodup)
    {name : String} {offered : Export} :
    (name, offered) ∈ Exports.of module ↔
      ∃ item ∈ module.items, (name, offered) ∈ exportsOf module item := by
  have keys : (module.items.flatMap (exportsOf module)).map Prod.fst =
      module.items.flatMap Item.names := by
    rw [List.map_flatMap]
    exact List.flatMap_congr fun item _ => exportsOf_names module item
  have distinct' : ((module.items.flatMap (exportsOf module)).map Prod.fst ++
      ([] : List (String × Export)).map Prod.fst).Nodup := by
    rwa [List.map_nil, List.append_nil, keys]
  have written := Assoc.insertAll_perm distinct'
  rw [List.append_nil] at written
  rw [Exports.of, written.mem_iff, List.mem_flatMap]

/-- What a module's exports perform is what is written in its functions and handlers. -/
theorem exports_perform {module : Module}
    (distinct : (module.items.flatMap Item.names).Nodup) {name : String} {entry : RowEntry} :
    (∃ offered : Export, (name, offered) ∈ Exports.of module ∧
        offered.kind ∈ [ExportKind.function, ExportKind.handler] ∧ entry ∈ offered.row) ↔
      ∃ item ∈ module.items, Item.Performs module item name entry := by
  simp only [mem_exports distinct, performs_iff]
  constructor
  · rintro ⟨offered, ⟨item, inside, member⟩, kind, performed⟩
    exact ⟨item, inside, offered, member, kind, performed⟩
  · rintro ⟨item, inside, offered, member, kind, performed⟩
    exact ⟨offered, ⟨item, inside, member⟩, kind, performed⟩

end Deed.Resolve
