import Deed.Eval.Builtins
import Deed.Typeck.Ty

/-!
# Checking the patterns of a `match`

`check_exhaustive`, the three walks over the heads of the patterns that it chooses
between, and `bind_pattern`, from `crates/deed-typeck/src/check.rs`.
-/

namespace Deed.Typeck

open Deed.Ast (Ident MatchArm Pattern PatternField Span)
open Deed.Eval (Code DefId DefKind Diagnostic)

namespace Codes

def NON_EXHAUSTIVE_MATCH : String := "DEED4006"
def CATCH_ALL_ON_CHOICE : String := "DEED4014"
def PATTERN_MISMATCH : String := "DEED4018"

end Codes

/-- What the checker reads while it checks a module. -/
structure Checker where
  code : Code
  types : Types
  /-- What another module exports under a name. -/
  world : String → String → Option SurfaceItem
  /-- The variants of a choice are declared as variants under their names. -/
  declared : ∀ {choice : DefId} {variants : List VariantTy},
    types.nominal choice = some (.choice variants) → ∀ variant ∈ variants,
      code.kindOf variant.definition = .variant ∧
        code.nameOf variant.definition = variant.name ∧
        (code.resolutions.definition variant.definition).parent = some choice
  /-- A choice is declared where it is nominal. -/
  home : ∀ {choice : DefId} {variants : List VariantTy},
    types.nominal choice = some (.choice variants) → code.kindOf choice = .choice

/-- The patterns an arm actually tests against. -/
def alternativesOf : Pattern → List Pattern
  | .oneOf alternatives _ => alternatives
  | other => [other]

/-- Where a pattern is. -/
def spanOf : Pattern → Span
  | .wildcard span | .path _ span | .tuple _ _ span | .record _ _ span | .int _ span
  | .str _ span | .bool _ span | .oneOf _ span | .error span => span

/-- Names as a sentence lists them. -/
def listed (items : List String) : String :=
  match items.getLast? with
  | none => ""
  | some last =>
      if items.length = 1 then "`" ++ last ++ "`"
      else
        Types.joined (items.dropLast.map fun item => "`" ++ item ++ "`") ++ " and `" ++ last ++
          "`"

/-! ## Coverage -/

/-- What a walk makes of the head of a pattern. -/
inductive Seen (κ : Type) where
  | covers (case : κ)
  | everything (span : Span)
  | nothing

namespace Seen

variable {κ : Type}

def case? : Seen κ → Option κ
  | .covers case => some case
  | _ => none

def everything? : Seen κ → Option Span
  | .everything span => some span
  | _ => none

end Seen

section Coverage

variable {κ : Type} (see : Pattern → Seen κ) (arms : List MatchArm)

/-- Every pattern that the arms test against. -/
def tested : List Pattern := arms.flatMap fun arm => alternativesOf arm.pattern

def covered : List κ := (tested arms).filterMap fun pattern => (see pattern).case?

/-- The first pattern that takes every case. -/
def catchAll : Option Span := (tested arms).findSome? fun pattern => (see pattern).everything?

end Coverage

/-- What is said of an arm that takes every case, and of cases that no arm takes. -/
structure Wording where
  everything : String
  advice : String
  rule : String

/-- The complaints about arms over some cases. -/
def complaints {κ : Type} [DecidableEq κ] (file : Deed.Eval.FileId) (wording : Wording)
    (cases : List (κ × String)) (see : Pattern → Seen κ) (arms : List MatchArm)
    (span : Span) : List Diagnostic :=
  match catchAll see arms with
  | some caught => [
      ((Diagnostic.error Codes.CATCH_ALL_ON_CHOICE file caught wording.everything)
        |>.withPrimaryLabel "catches everything" |>.withSecondary span "in this match"
        |>.withNote wording.advice)]
  | none =>
      let missing := (cases.filter fun case => case.1 ∉ covered see arms).map Prod.snd
      if missing = [] then []
      else [
        ((Diagnostic.error Codes.NON_EXHAUSTIVE_MATCH file span
          ("this match does not cover " ++ listed missing))
          |>.withPrimaryLabel "not exhaustive" |>.withNote wording.rule)]

namespace Checker

variable (checker : Checker)

def resolution (ident : Ident) : Option DefId := checker.code.defOf ident

def externalItem : Ty → Option SurfaceItem
  | .external module name _ => checker.world module name
  | _ => none

/-- The base of a refinement, and any other type as it is. -/
def widen (ty : Ty) : Ty :=
  match ty with
  | .named definition _ =>
      match checker.types.nominal definition with
      | some (.refinement base _) => base
      | _ => ty
  | _ =>
      match checker.externalItem ty with
      | some (.refinement base) => base
      | _ => ty

/-- The walk over a choice of this module, by definition. -/
def seenHere : Pattern → Seen DefId
  | .wildcard span => .everything span
  | .path segments span =>
      match segments.getLast? with
      | none => .nothing
      | some last =>
          match checker.resolution last with
          | some definition =>
              if checker.code.kindOf definition = .variant then .covers definition
              -- A bare binding matches every variant.
              else .everything span
          | none => .everything span
  | .tuple path _ _ | .record path _ _ =>
      match path.getLast?.bind checker.resolution with
      | some definition => .covers definition
      | none => .nothing
  | _ => .nothing

/-- The walk over a choice of another module, by name. -/
def seenNamed (variants : List String) : Pattern → Seen String
  | .wildcard span => .everything span
  | .path segments span =>
      match segments.getLast? with
      | some last => if last.name ∈ variants then .covers last.name else .everything span
      | none => .everything span
  | .tuple path _ _ | .record path _ _ =>
      match path.getLast? with
      | some last => .covers last.name
      | none => .nothing
  | _ => .nothing

/-- The walk over a `Result`, by the name of the builtin. -/
def seenResult : Pattern → Seen String
  | .wildcard span | .path _ span => .everything span
  | .tuple path _ _ =>
      match (path.getLast?.bind checker.resolution).map checker.code.nameOf with
      | some name => if name = "ok" ∨ name = "err" then .covers name else .nothing
      | none => .nothing
  | _ => .nothing

def checkHereExhaustive (choice : DefId) (variants : List VariantTy) (arms : List MatchArm)
    (span : Span) : List Diagnostic :=
  let name := checker.types.nameOf choice
  complaints checker.code.file {
      everything := "this arm matches every variant of `" ++ name ++ "`"
      advice := "list the variants instead: adding one to `" ++ name ++
        "` should break every match that has to care, and a catch-all arm is what stops that from happening"
      rule := "every variant of `" ++ name ++
        "` needs an arm, and there is no wildcard to fall back on" }
    (variants.map fun variant => (variant.definition, variant.name)) checker.seenHere arms span

def checkNamedExhaustive (variants : List String) (choice : String) (arms : List MatchArm)
    (span : Span) : List Diagnostic :=
  complaints checker.code.file {
      everything := "this arm matches every variant of " ++ choice
      advice := "list the variants instead: adding one to a choice should break every match that has to care, and that is as true across a module boundary as inside one"
      rule := "every variant of " ++ choice ++
        " needs an arm, and there is no wildcard to fall back on" }
    (variants.map fun name => (name, name)) (seenNamed variants) arms span

def checkResultExhaustive (arms : List MatchArm) (span : Span) : List Diagnostic :=
  complaints checker.code.file {
      everything := "this arm matches both cases of the `Result`"
      advice := "write `ok(...)` and `err(...)` instead, so the failure case cannot be handled by accident"
      rule := "a `Result` has two cases and both need an arm" }
    [("ok", "ok"), ("err", "err")] checker.seenResult arms span

/-- A choice is worth nothing if a case can be forgotten, or swallowed. -/
def checkExhaustive (scrutinee : Ty) (arms : List MatchArm) (span : Span) : List Diagnostic :=
  let widened := checker.widen scrutinee
  match widened with
  | .result _ _ => checker.checkResultExhaustive arms span
  | .external _ _ _ =>
      match checker.externalItem widened with
      | some (.choice variants) =>
          checker.checkNamedExhaustive variants (checker.types.describe widened) arms span
      | _ => []
  | .named definition _ =>
      match checker.types.nominal definition with
      | some (.choice variants) => checker.checkHereExhaustive definition variants arms span
      | _ => []
  | _ => []

/-! ## Binding -/

/-- The fields of a record, or of a variant. -/
def variantFields (named : DefId) : Option (List FieldTy) :=
  match checker.types.nominal named with
  | some (.record fields) => some fields
  | _ =>
      match (checker.code.resolutions.definition named).parent.bind checker.types.nominal with
      | some (.choice variants) =>
          (variants.find? fun candidate => candidate.definition == named).bind
            VariantTy.fields
      | _ => none

/-- What an applied type was applied to. -/
def bindingsFor (ty : Ty) : List Ty :=
  match checker.widen ty with
  | .named _ args | .external _ _ args => args
  | _ => []

/-- The type a field of a pattern is bound at. -/
def fieldTy (fields : Option (List FieldTy)) (ty : Ty) (name : String) : Ty :=
  match fields.bind fun fields => fields.find? fun field => field.name == name with
  | some field => field.ty.substitute (checker.bindingsFor ty)
  | none => .unknown

/-- What `ok` or `err` holds in a type, and the complaint where it holds nothing. -/
def resultPart (path : List Ident) (span : Span) (ty : Ty) : Ty × List Diagnostic :=
  match Deed.Eval.builtinName checker.code path, checker.widen ty with
  | some "ok", .result ok _ => (ok, [])
  | some "err", .result _ err => (err, [])
  | some name, other =>
      if name = "ok" ∨ name = "err" then
        (.unknown, if other.absorbs then [] else [
          ((Diagnostic.error Codes.PATTERN_MISMATCH checker.code.file span
            ("`" ++ name ++ "(...)` matches a `Result`, and this is " ++
              checker.types.describe other)) |>.withPrimaryLabel "cannot match")])
      else notAResult
  | none, _ => notAResult
where
  notAResult : Ty × List Diagnostic := (.unknown, [
    ((Diagnostic.error Codes.PATTERN_MISMATCH checker.code.file span
      "only `ok` and `err` carry a value in a pattern")
      |>.withPrimaryLabel "not a pattern that can match"
      |>.withNote
        "variants have named fields, so they are matched with `Variant \x7b field \x7d`")])

/-- The complaint about a pattern of a `Result` that binds not one value. -/
def arity (elements : List Pattern) (span : Span) : List Diagnostic :=
  if elements.length = 1 then []
  else [
    ((Diagnostic.error Codes.PATTERN_MISMATCH checker.code.file span
      ("this pattern binds " ++ toString elements.length ++
        " values, and it should bind one"))
      |>.withPrimaryLabel "wrong number of bindings")]

mutual

/-- The types a pattern gives its names, and the complaints about it. -/
def bindPattern (ty : Ty) : Pattern → List (DefId × Ty) × List Diagnostic
  | .path segments _ =>
      match segments with
      | [only] =>
          match checker.resolution only with
          | some definition =>
              if checker.code.kindOf definition = .local then ([(definition, ty)], [])
              else ([], [])
          | none => ([], [])
      | _ => ([], [])
  | .tuple path elements span =>
      let (inner, wrong) := checker.resultPart path span ty
      let bound := bindElements inner elements
      (bound.1, wrong ++ checker.arity elements span ++ bound.2)
  | .record path fields _ =>
      bindFields ((path.getLast?.bind checker.resolution).bind checker.variantFields) ty fields
  | .wildcard _ | .int _ _ | .str _ _ | .bool _ _ | .oneOf _ _ | .error _ => ([], [])

def bindElements (ty : Ty) : List Pattern → List (DefId × Ty) × List Diagnostic
  | [] => ([], [])
  | first :: rest =>
      let bound := bindPattern ty first
      let more := bindElements ty rest
      (bound.1 ++ more.1, bound.2 ++ more.2)

def bindFields (declared : Option (List FieldTy)) (ty : Ty) :
    List PatternField → List (DefId × Ty) × List Diagnostic
  | [] => ([], [])
  | .mk name pattern _ :: rest =>
      let field := checker.fieldTy declared ty name.name
      let bound :=
        match pattern with
        | some pattern => bindPattern field pattern
        | none => ((checker.resolution name).toList.map fun definition => (definition, field), [])
      let more := bindFields declared ty rest
      (bound.1 ++ more.1, bound.2 ++ more.2)

end

/-- What checking a `match` says about its patterns. -/
def checkMatch (scrutinee : Ty) (arms : List MatchArm) (span : Span) : List Diagnostic :=
  (arms.flatMap fun arm => (checker.bindPattern scrutinee arm.pattern).2) ++
    checker.checkExhaustive scrutinee arms span

end Checker

end Deed.Typeck
