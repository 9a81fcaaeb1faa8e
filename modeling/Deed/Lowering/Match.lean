import Deed.Eval.Program
import Deed.Library.Action
import Deed.Mir.Program

/-!
# Lowering a `match`

`match_arms`, `discriminates` and `arm_pattern` of `crates/deed-mir/src/lower.rs`.  How an
expression is lowered, and which type was recorded at a span, is a parameter: a `match`
asks for the scrutinee and the bodies of its arms, and does nothing else with them.
-/

namespace Deed.Lowering

open Deed.Ast (Ident MatchArm Pattern PatternField Span)
open Deed.Eval (DefId)
open Deed.Library
open Deed.Mir

/-- What lowering says about code it cannot lower. -/
structure Unlowered where
  what : String
  span : Span
deriving DecidableEq, Repr

/-- What lowering a body changes: the slots of the function, the slot that stands for each
name, and whatever else it keeps. -/
structure Lowering (Rest : Type) where
  locals : List Ty
  slots : List (DefId × Local)
  rest : Rest

abbrev Lower (Rest : Type) (α : Type) : Type := Action (Lowering Rest) Unlowered α

/-- Which field of which variant of which layout is read, from the outside in. -/
abbrev FieldPath : Type := List (LayoutId × Nat × Nat)

/-- Which variants an arm's pattern names, and what it binds. -/
abbrev Arm : Type := List Nat × List (FieldPath × Ident)

/-- A match on a layout. -/
def variantsOf (program : Program) (layout : LayoutId) : List Variant :=
  (program.layout layout).variants

def fieldsOf (program : Program) (layout : LayoutId) (variant : Nat) : List Field :=
  ((variantsOf program layout).getD variant ⟨"", []⟩).fields

/-- What was found, or the complaint that it was not. -/
def found {α : Type} (option : Option α) (what : String) (span : Span) : Except Unlowered α :=
  match option with
  | some value => .ok value
  | none => .error ⟨what, span⟩

section Patterns

variable (program : Program)

/-- Where the variant is that a pattern names. -/
def variantNamed (layout : LayoutId) (path : List Ident) (span : Span) :
    Except Unlowered Nat := do
  let name ← found path.getLast? "an empty pattern" span
  found ((variantsOf program layout).findIdx? fun variant => variant.name == name.name)
    "a pattern naming no variant" span

/-- The bindings of a pattern one level further in.  It has to apply always: an arm has
one condition, and a pattern that could fail would need a second. -/
def within (here : LayoutId × Nat × Nat) (ty : Ty) (span : Span)
    (inner : LayoutId → Except Unlowered Arm) :
    Except Unlowered (List (FieldPath × Ident)) :=
  match ty with
  | .aggregate layout => do
      let arm ← inner layout
      if arm.1.length ≠ (variantsOf program layout).length then
        .error ⟨"a pattern inside a pattern that has to be tested", span⟩
      else pure (arm.2.map fun binding => (here :: binding.1, binding.2))
  | _ => .error ⟨"a pattern inside a pattern", span⟩

/-- Where a pattern is. -/
def spanOf : Pattern → Span
  | .wildcard span | .path _ span | .tuple _ _ span | .record _ _ span | .int _ span
  | .str _ span | .bool _ span | .oneOf _ span | .error span => span

mutual

/-- Which variants an arm's pattern names, and what it binds. -/
def armPattern (layout : LayoutId) : Pattern → Except Unlowered Arm
  | .wildcard _ => pure (List.range (variantsOf program layout).length, [])
  | .path segments span => do
      let at_ ← variantNamed program layout segments span
      pure ([at_], [])
  | .record path fields span => do
      let at_ ← variantNamed program layout path span
      let bindings ← recordBindings layout at_ span fields
      pure ([at_], bindings)
  | .tuple path elements span => do
      let at_ ← variantNamed program layout path span
      let bindings ← tupleBindings layout at_ 0 elements
      pure ([at_], bindings)
  | .oneOf alternatives _ => do
      let variants ← alternativeVariants layout alternatives
      pure (variants, [])
  | .int _ span | .str _ span | .bool _ span | .error span => .error ⟨"this pattern", span⟩

/-- What a pattern in the place of a field binds: a name binds the whole field. -/
def partBindings (here : LayoutId × Nat × Nat) (ty : Ty) :
    Pattern → Except Unlowered (List (FieldPath × Ident))
  | .wildcard _ => pure []
  | .path segments span => do
      let name ← found segments.getLast? "an empty pattern" span
      pure [([here], name)]
  | .record path fields span =>
      within program here ty span fun layout => do
        let at_ ← variantNamed program layout path span
        let bindings ← recordBindings layout at_ span fields
        pure ([at_], bindings)
  | .tuple path elements span =>
      within program here ty span fun layout => do
        let at_ ← variantNamed program layout path span
        let bindings ← tupleBindings layout at_ 0 elements
        pure ([at_], bindings)
  | .oneOf alternatives span =>
      within program here ty span fun layout => do
        let variants ← alternativeVariants layout alternatives
        pure (variants, [])
  | .int _ span | .str _ span | .bool _ span | .error span =>
      within program here ty span fun _ => .error ⟨"this pattern", span⟩

def recordBindings (layout : LayoutId) (variant : Nat) (span : Span) :
    List PatternField → Except Unlowered (List (FieldPath × Ident))
  | [] => pure []
  | .mk name pattern _ :: rest => do
      let index ← found
        ((fieldsOf program layout variant).findIdx? fun declared => declared.name == name.name)
        "a field the variant does not have" span
      let here := (layout, variant, index)
      let ty := ((fieldsOf program layout variant).getD index ⟨"", .unit⟩).ty
      let bound ←
        match pattern with
        | none => pure [([here], name)]
        | some pattern => partBindings here ty pattern
      let more ← recordBindings layout variant span rest
      pure (bound ++ more)

def tupleBindings (layout : LayoutId) (variant position : Nat) :
    List Pattern → Except Unlowered (List (FieldPath × Ident))
  | [] => pure []
  | element :: rest => do
      let ty := ((fieldsOf program layout variant).getD position ⟨"", .unit⟩).ty
      let bound ← partBindings (layout, variant, position) ty element
      let more ← tupleBindings layout variant (position + 1) rest
      pure (bound ++ more)

def alternativeVariants (layout : LayoutId) : List Pattern → Except Unlowered (List Nat)
  | [] => pure []
  | alternative :: rest => do
      let arm ← armPattern layout alternative
      let more ← alternativeVariants layout rest
      pure (arm.1 ++ more)

end

/-- Whether the value in a slot is a variant. -/
def isOne (layout : LayoutId) (held : Local) (variant : Nat) : Expr :=
  .binary .eq (.discriminant (.local_ held) layout) (.int (.ofNat variant)) ⟨0, 0⟩

/-- Whether the value in a slot is one of some variants; nothing when every variant is
named. -/
def discriminates (variants : List Nat) (layout : LayoutId) (held : Local) : Option Expr :=
  if variants.length = (variantsOf program layout).length then none
  else
    variants.foldl (fun condition variant =>
      some (match condition with
        | none => isOne layout held variant
        | some before => .binary .or before (isOne layout held variant) ⟨0, 0⟩)) none

/-- The type of the field that a path ends at, and the expression that reads it. -/
def readPath (held : Local) (path : FieldPath) : Expr × Ty :=
  path.foldl (fun read step =>
    (.field read.1 step.1 step.2.1 step.2.2,
      ((fieldsOf program step.1 step.2.1).getD step.2.2 ⟨"", .unit⟩).ty)) (.local_ held, .unit)

end Patterns

/-! ## Arms -/

section Arms

variable {Rest : Type} (program : Program) (resolution : Ident → Option DefId)
  (expr : Ast.Expr → Lower Rest Expr) (tyAt : Span → Lower Rest Ty)

def addLocal (ty : Ty) : Lower Rest Local := do
  let lowering ← Action.look id
  Action.change fun lowering => { lowering with locals := lowering.locals ++ [ty] }
  pure lowering.locals.length

/-- Reads what an arm binds into slots of its own. -/
def bindParts (held : Local) : List (FieldPath × Ident) → Lower Rest (List Stmt)
  | [] => pure []
  | (path, name) :: rest => do
      let (read, ty) := readPath program held path
      let slot ← addLocal ty
      match resolution name with
      | some definition =>
          Action.change fun lowering =>
            { lowering with slots := Assoc.insert lowering.slots definition slot }
      | none => pure ()
      let more ← bindParts held rest
      pure (.assign slot read :: more)

/-- Ends with what lowering a pattern did. -/
def lift {α : Type} (result : Except Unlowered α) : Lower Rest α :=
  match result with
  | .ok value => pure value
  | .error why => Action.signal why

/-- Where no arm applied. -/
def noArm (span : Span) : Block :=
  .mk [.fail "DEED6006" "no arm of this match applied" span] .unit

/-- An arm in front of the chain of the arms after it. -/
def link (layout : LayoutId) (held : Local) (ty : Ty) (variants : List Nat) (taken chain : Block) :
    Block :=
  match discriminates program variants layout held with
  -- No condition at all means this arm always applies.
  | none => taken
  | some condition => .of (.if_ condition taken chain ty)

/-- The arms, built back to front. -/
def chainArms (layout : LayoutId) (held : Local) (ty : Ty) (span : Span) :
    List MatchArm → Lower Rest Block
  | [] => pure (noArm span)
  | arm :: rest => do
      let chain ← chainArms layout held ty span rest
      let (variants, bindings) ← lift (armPattern program layout arm.pattern)
      let stmts ← bindParts program resolution held bindings
      let value ← expr arm.body
      pure (link program layout held ty variants (.mk stmts value) chain)

/-- A `match` becomes a chain of `if`s over the discriminant. -/
def matchArms (scrutinee : Ast.Expr) (arms : List MatchArm) (span : Span) : Lower Rest Expr := do
  let subjectTy ← tyAt scrutinee.span
  match subjectTy with
  | .aggregate layout => do
      let held ← addLocal subjectTy
      let value ← expr scrutinee
      let ty ←
        match arms.head? with
        | some first => tyAt first.body.span
        | none => pure .unit
      let chain ← chainArms program resolution expr layout held ty span arms
      pure (.block (.mk [.assign held value] (.block chain)))
  | _ => Action.signal ⟨"a match on something other than a choice", span⟩

end Arms

end Deed.Lowering
