import Deed.Eval.Matching
import Deed.Typeck.Exhaustive

/-!
# A `match` that was checked has an arm

The walks of the checker look at the heads of the patterns, and so does the interpreter's
matcher: where the two read a head alike, a `match` over a choice or a `Result` that the
checker has no complaint about has an arm for every value.
-/

namespace Deed.Typeck

open Deed.Ast (Ident MatchArm Pattern PatternField Span)
open Deed.Eval (DefId Origin Program Value binderOf builtinName describes described headOf
  isVariant matchesAny matchesPattern matchesPattern_path matchesPattern_record resultName taken)

namespace Checker

variable (checker : Checker)

/-- The shape that a value of a type has. -/
def Shaped (scrutinee : Ty) (value : Value) : Prop :=
  match checker.widen scrutinee with
  | .int => ∃ number, value = .int number
  | .str => ∃ text, value = .str text
  | .bool => ∃ yes, value = .bool yes
  | .unit => value = .unit
  | .result _ _ => ∃ ok inner, value = .result ok inner
  | .list _ => ∃ elements, value = .list elements
  | .named definition _ =>
      match checker.types.nominal definition with
      | some (.choice variants) =>
          ∃ variant ∈ variants, ∃ held, value = .variant checker.code.path variant.name held
      | some (.record _) => ∃ held, value = .record held
      | _ => True
  | .external module name _ =>
      match checker.world module name with
      | some (.choice variants) => ∃ variant ∈ variants, ∃ held, value = .variant module variant held
      | _ => True
  | _ => True

/-- The interpreter reads the head of a pattern as a variant, or as a binding. -/
def Means (program : Program) (variant : Origin) : Pattern → Prop
  | .path segments _ =>
      (binderOf checker.code segments).isSome = true ∨
        (headOf checker.code segments).bind (program.variantId checker.code) = some variant
  | .record path _ _ =>
      (headOf checker.code path).bind (program.variantId checker.code) = some variant
  | .tuple _ _ _ => False
  | _ => True

/-- The checker walks over the cases of the scrutinee's type, and what it takes a head for
is what the head means. -/
def Walks (program : Program) (scrutinee : Ty) (arms : List MatchArm) : Prop :=
  match checker.widen scrutinee with
  | .result _ _ => ∀ path elements span, .tuple path elements span ∈ tested arms →
      ∀ definition, headOf checker.code path = some definition →
        checker.code.kindOf definition = .builtin
  | .named definition _ =>
      match checker.types.nominal definition with
      | some (.choice _) => ∀ path elements span, .tuple path elements span ∉ tested arms
      | _ => False
  | .external module name _ =>
      match checker.world module name with
      | some (.choice variants) => ∀ pattern ∈ tested arms, ∀ variant ∈ variants,
          (seenNamed variants pattern).case? = some variant →
            checker.Means program (module, variant) pattern
      | _ => False
  | _ => False

end Checker

/-- Where there is no complaint every case is covered. -/
theorem covers_of_complaints {κ : Type} [DecidableEq κ] {file : Deed.Eval.FileId}
    {wording : Wording} {cases : List (κ × String)} {see : Pattern → Seen κ}
    {arms : List MatchArm} {span : Span} (quiet : complaints file wording cases see arms span = []) :
    ∀ case ∈ cases, ∃ pattern ∈ tested arms, (see pattern).case? = some case.1 := by
  unfold complaints at quiet
  cases caught : catchAll see arms with
  | some place =>
      rw [caught] at quiet
      exact absurd quiet (List.cons_ne_nil _ _)
  | none =>
      simp only [caught] at quiet
      by_cases missing : (cases.filter fun case => case.1 ∉ covered see arms).map Prod.snd = []
      · intro case listed
        rw [List.map_eq_nil_iff, List.filter_eq_nil_iff] at missing
        have present : case.1 ∈ covered see arms := by
          by_contra absent
          exact missing case listed (decide_eq_true absent)
        exact List.mem_filterMap.1 present
      · rw [if_neg missing] at quiet
        exact absurd quiet (List.cons_ne_nil _ _)

section

variable {checker : Checker} {program : Program} {value : Value} {arms : List MatchArm}

/-- An arm takes what one of its alternatives takes. -/
theorem matches_of_tested {pattern : Pattern} (listed : pattern ∈ tested arms)
    (accepts : matchesPattern program checker.code value pattern = true) :
    ∃ arm ∈ arms, matchesPattern program checker.code value arm.pattern = true := by
  rcases List.mem_flatMap.1 listed with ⟨arm, there, alternative⟩
  refine ⟨arm, there, ?_⟩
  cases written : arm.pattern with
  | oneOf alternatives span =>
      rw [written] at alternative
      rw [matchesPattern, Deed.Eval.matchesAny_eq]
      exact List.any_eq_true.2 ⟨pattern, alternative, accepts⟩
  | _ =>
      rw [written] at alternative
      rw [← List.mem_singleton.1 alternative]
      exact accepts

theorem isVariant_self {origin name : String} {held : Deed.Eval.Fields} :
    isVariant (.variant origin name held) (origin, name) = true := by
  rw [isVariant, beq_self_eq_true, beq_self_eq_true]
  rfl

/-- A head that means a variant accepts its values. -/
theorem matches_of_means {variant : Origin} {held : Deed.Eval.Fields} {pattern : Pattern}
    (means : checker.Means program variant pattern)
    (headed : (∃ path fields span, pattern = .record path fields span) ∨
      ∃ segments span, pattern = .path segments span ∧ segments ≠ []) :
    matchesPattern program checker.code (.variant variant.1 variant.2 held) pattern = true := by
  rcases headed with ⟨path, fields, span, rfl⟩ | ⟨segments, span, rfl, some_⟩
  · rw [matchesPattern_record, means, Option.any_some]
    exact isVariant_self
  · rw [matchesPattern_path some_]
    rcases means with binds | read
    · rcases Deed.Eval.binderOf_some binds with ⟨only, definition, rfl, found, kind⟩
      have bare : program.variantId checker.code definition = none := by
        rw [Program.variantId, kind]
      have head : headOf checker.code [only] = some definition := found
      rw [head, Option.bind_some, bare]
      rfl
    · rw [read]
      exact @isVariant_self variant.1 variant.2 held

/-- The case that the walk over a choice of this module takes a pattern for. -/
theorem seenHere_case {pattern : Pattern} {definition : DefId}
    (seen : (checker.seenHere pattern).case? = some definition) :
    (∃ path elements span, pattern = .tuple path elements span) ∨
      ((∃ path fields span, pattern = .record path fields span ∧
          headOf checker.code path = some definition) ∨
        ∃ segments span, pattern = .path segments span ∧
          headOf checker.code segments = some definition) := by
  cases pattern with
  | tuple path elements span => exact Or.inl ⟨path, elements, span, rfl⟩
  | record path fields span =>
      rw [Checker.seenHere] at seen
      cases head : path.getLast?.bind checker.resolution with
      | none =>
          rw [head] at seen
          exact absurd seen.symm (Option.some_ne_none _)
      | some resolved =>
          simp only [head] at seen
          exact Or.inr (Or.inl ⟨path, fields, span, rfl, head.trans seen⟩)
  | path segments span =>
      rw [Checker.seenHere] at seen
      cases last : segments.getLast? with
      | none =>
          rw [last] at seen
          exact absurd seen.symm (Option.some_ne_none _)
      | some ident =>
          simp only [last] at seen
          cases resolved : checker.resolution ident with
          | none =>
              rw [resolved] at seen
              exact absurd seen.symm (Option.some_ne_none _)
          | some found =>
              simp only [resolved] at seen
              by_cases kind : checker.code.kindOf found = .variant
              · rw [if_pos kind] at seen
                refine Or.inr (Or.inr ⟨segments, span, rfl, ?_⟩)
                rw [headOf, last]
                exact resolved.trans seen
              · rw [if_neg kind] at seen
                exact absurd seen.symm (Option.some_ne_none _)
  | _ => exact absurd seen.symm (Option.some_ne_none _)

/-- The case that the walk over a choice of another module takes a pattern for. -/
theorem seenNamed_case {variants : List String} {pattern : Pattern} {variant : String}
    (seen : (Checker.seenNamed variants pattern).case? = some variant) :
    (∃ path elements span, pattern = .tuple path elements span) ∨
      ((∃ path fields span, pattern = .record path fields span) ∨
        ∃ segments span, pattern = .path segments span ∧ segments ≠ []) := by
  cases pattern with
  | tuple path elements span => exact Or.inl ⟨path, elements, span, rfl⟩
  | record path fields span => exact Or.inr (Or.inl ⟨path, fields, span, rfl⟩)
  | path segments span =>
      refine Or.inr (Or.inr ⟨segments, span, rfl, ?_⟩)
      rintro rfl
      exact absurd seen.symm (Option.some_ne_none _)
  | _ => exact absurd seen.symm (Option.some_ne_none _)

/-- A choice of this module: every variant has an arm that takes its values. -/
theorem covers_here {choice : DefId} {variants : List VariantTy} {span : Span}
    (nominal : checker.types.nominal choice = some (.choice variants))
    (quiet : checker.checkHereExhaustive choice variants arms span = [])
    (bare : ∀ path elements span, .tuple path elements span ∉ tested arms)
    {variant : VariantTy} (present : variant ∈ variants) (held : Deed.Eval.Fields) :
    ∃ arm ∈ arms, matchesPattern program checker.code
      (.variant checker.code.path variant.name held) arm.pattern = true := by
  rcases covers_of_complaints quiet _ (List.mem_map.2 ⟨variant, present, rfl⟩) with
    ⟨pattern, listed, seen⟩
  rcases checker.declared nominal variant present with ⟨kind, name, -⟩
  have read : program.variantId checker.code variant.definition =
      some (checker.code.path, variant.name) := by
    rw [Program.variantId, kind, ← name]
  apply matches_of_tested listed
  rcases seenHere_case seen with ⟨path, elements, span, rfl⟩ | headed
  · exact absurd listed (bare path elements span)
  · apply @matches_of_means checker program (checker.code.path, variant.name) held pattern
    · rcases headed with ⟨path, fields, span, rfl, head⟩ | ⟨segments, span, rfl, head⟩
      · rw [Checker.Means, head]
        exact read
      · refine Or.inr ?_
        rw [head]
        exact read
    · rcases headed with ⟨path, fields, span, same, -⟩ | ⟨segments, span, same, head⟩
      · exact Or.inl ⟨path, fields, span, same⟩
      · refine Or.inr ⟨segments, span, same, ?_⟩
        rintro rfl
        exact absurd head.symm (Option.some_ne_none _)

/-- A `Result`: both cases have an arm. -/
theorem covers_result {span : Span} (quiet : checker.checkResultExhaustive arms span = [])
    (builtin : ∀ path elements span, .tuple path elements span ∈ tested arms →
      ∀ definition, headOf checker.code path = some definition →
        checker.code.kindOf definition = .builtin) (ok : Bool) (inner : Value) :
    ∃ arm ∈ arms,
      matchesPattern program checker.code (.result ok inner) arm.pattern = true := by
  have present : (resultName ok, resultName ok) ∈ [("ok", "ok"), ("err", "err")] := by
    cases ok with
    | true => exact List.mem_cons_self
    | false => exact List.mem_cons_of_mem _ List.mem_cons_self
  rcases covers_of_complaints quiet _ present with ⟨pattern, listed, seen⟩
  apply matches_of_tested listed
  cases pattern with
  | tuple path elements span =>
      rw [Checker.seenResult] at seen
      cases head : path.getLast?.bind checker.resolution with
      | none =>
          rw [head] at seen
          exact absurd seen.symm (Option.some_ne_none _)
      | some definition =>
          simp only [head, Option.map_some] at seen
          have kind := builtin path elements span listed definition head
          have name : checker.code.nameOf definition = resultName ok := by
            by_cases known : checker.code.nameOf definition = "ok" ∨
                checker.code.nameOf definition = "err"
            · rw [if_pos known] at seen
              exact Option.some.inj seen
            · rw [if_neg known] at seen
              exact absurd seen.symm (Option.some_ne_none _)
          have named : builtinName checker.code path = some (resultName ok) := by
            have found : (path.getLast?.bind checker.code.defOf) = some definition := head
            rcases Option.bind_eq_some_iff.1 found with ⟨last, end_, resolved⟩
            simp only [builtinName, end_, Option.bind_eq_bind, Option.bind_some, resolved]
            rw [if_pos kind, name]
          rw [matchesPattern, named]
          cases ok <;> decide
  | _ => exact absurd seen.symm (Option.some_ne_none _)

/-- A `match` that the checker walked over without a complaint has an arm for every value
of the scrutinee's type. -/
theorem taken_of_walks {scrutinee : Ty} {span : Span}
    (accepted : checker.checkMatch scrutinee arms span = [])
    (walks : checker.Walks program scrutinee arms) (shaped : checker.Shaped scrutinee value) :
    ∃ arm ∈ arms, matchesPattern program checker.code value arm.pattern = true := by
  have quiet := (List.append_eq_nil_iff.1 accepted).2
  unfold Checker.checkExhaustive at quiet
  unfold Checker.Walks at walks
  unfold Checker.Shaped at shaped
  cases widened : checker.widen scrutinee with
  | result good bad =>
      simp only [widened] at quiet walks shaped
      rcases shaped with ⟨ok, inner, rfl⟩
      exact covers_result quiet walks ok inner
  | named choice args =>
      simp only [widened] at quiet walks shaped
      cases nominal : checker.types.nominal choice with
      | none =>
          rw [nominal] at walks
          exact walks.elim
      | some declared =>
          cases declared with
          | choice variants =>
              simp only [nominal] at quiet walks shaped
              rcases shaped with ⟨variant, present, held, rfl⟩
              exact covers_here nominal quiet walks present held
          | _ =>
              rw [nominal] at walks
              exact walks.elim
  | external module name args =>
      simp only [widened, Checker.externalItem] at quiet walks shaped
      cases item : checker.world module name with
      | none =>
          rw [item] at walks
          exact walks.elim
      | some exported =>
          cases exported with
          | choice variants =>
              simp only [item] at quiet walks shaped
              rcases shaped with ⟨variant, present, held, rfl⟩
              rcases covers_of_complaints quiet _ (List.mem_map.2 ⟨variant, present, rfl⟩) with
                ⟨pattern, listed, seen⟩
              apply matches_of_tested listed
              have means := walks pattern listed variant present seen
              rcases seenNamed_case seen with ⟨path, elements, span, rfl⟩ | headed
              · exact means.elim
              · exact matches_of_means means headed
          | _ =>
              rw [item] at walks
              exact walks.elim
  | _ =>
      simp only [widened] at walks

end

/-! ## The arm that is taken -/

/-- The interpreter takes the first arm whose whole pattern describes a value, and binds
each of its names to the part that it names. -/
def TakesDescribed (program : Program) (code : Deed.Eval.Code) (value : Value)
    (arms : List MatchArm) : Prop :=
  ∃ index arm, described code value arms = some index ∧ arms[index]? = some arm ∧
    taken program code value arms = some index ∧
    (∀ (World : Type) (outside : Deed.Eval.Outside World)
      (eval : Deed.Ast.Expr → Deed.Eval.Eval World Value) (span : Span),
      Deed.Eval.evalArms program outside eval code value span arms = (do
        Deed.Eval.bindPattern program value arm.pattern
        eval arm.body)) ∧
    (∀ definition part, (definition, part) ∈ Deed.Eval.bindings code value arm.pattern ↔
      Deed.Eval.Names code value arm.pattern definition part) ∧
    ∀ definition ∈ Deed.Eval.bindersOf code arm.pattern,
      ∃ part, Deed.Eval.Names code value arm.pattern definition part

/-- The arms decide on a value by their heads, up to the first that describes it, and there
is one: the checker walked over the cases of the type, or one of the patterns is of the
value. -/
structure Decided (program : Program) (checker : Checker) (scrutinee : Ty) (value : Value)
    (arms : List MatchArm) : Prop where
  covered : checker.Walks program scrutinee arms ∨
    ∃ arm ∈ arms, describes checker.code value arm.pattern = true
  heads : ∀ (index : Nat) (arm : MatchArm), arms[index]? = some arm →
    (∀ (earlier : Nat) (other : MatchArm), earlier < index → arms[earlier]? = some other →
      describes checker.code value other.pattern = false) →
    Deed.Eval.HeadDecides program checker.code value arm.pattern

section

variable {checker : Checker} {program : Program} {value : Value} {arms : List MatchArm}

theorem describes_of_described {code : Deed.Eval.Code} {index : Nat} {arm : MatchArm}
    (found : described code value arms = some index) (there : arms[index]? = some arm) :
    describes code value arm.pattern = true ∧
      ∀ (earlier : Nat) (other : MatchArm), earlier < index → arms[earlier]? = some other →
        describes code value other.pattern = false := by
  rcases List.findIdx?_eq_some_iff_getElem.1 found with ⟨inside, here, before⟩
  rw [List.getElem?_eq_getElem inside] at there
  rw [Option.some.inj there] at here
  refine ⟨here, ?_⟩
  intro earlier other less at_
  have passed := before earlier less
  rw [List.getElem?_eq_getElem (Nat.lt_trans less inside)] at at_
  rw [Option.some.inj at_] at passed
  exact Bool.eq_false_iff.2 passed

/-- The interpreter takes the right arm of a `match` that the checker accepts exactly where
the heads decide. -/
theorem takesDescribed_iff {scrutinee : Ty} {span : Span}
    (accepted : checker.checkMatch scrutinee arms span = [])
    (shaped : checker.Shaped scrutinee value) :
    TakesDescribed program checker.code value arms ↔
      Decided program checker scrutinee value arms := by
  have agree := Deed.Eval.findIdx?_eq_iff
    (fun arm : MatchArm => matchesPattern program checker.code value arm.pattern)
    (fun arm => describes checker.code value arm.pattern) arms
  constructor
  · rintro ⟨index, arm, first, there, second, -⟩
    rcases agree.1 ⟨index, first, second⟩ with ⟨described_, same⟩
    refine ⟨Or.inr described_, ?_⟩
    intro position other at_ before
    rw [Deed.Eval.headDecides_iff]
    exact same position other at_ before
  · rintro ⟨covered, heads⟩
    have same : ∀ (position : Nat) (other : MatchArm), arms[position]? = some other →
        (∀ (earlier : Nat) (third : MatchArm), earlier < position →
          arms[earlier]? = some third →
          describes checker.code value third.pattern = false) →
        matchesPattern program checker.code value other.pattern =
          describes checker.code value other.pattern := by
      intro position other at_ before
      rw [← Deed.Eval.headDecides_iff]
      exact heads position other at_ before
    have some_ : ∃ arm ∈ arms, describes checker.code value arm.pattern = true := by
      rcases covered with walks | some_
      · by_contra none_
        have never : ∀ arm ∈ arms, describes checker.code value arm.pattern = false := by
          intro arm listed
          apply Bool.eq_false_iff.2
          intro whole
          exact none_ ⟨arm, listed, whole⟩
        rcases taken_of_walks accepted walks shaped with ⟨arm, listed, accepts⟩
        rcases List.mem_iff_getElem?.1 listed with ⟨position, at_⟩
        have alike := same position arm at_
          fun earlier third _ found => never third (List.mem_of_getElem? found)
        rw [accepts, never arm listed] at alike
        exact absurd alike.symm Bool.false_ne_true
      · exact some_
    rcases agree.2 ⟨some_, same⟩ with ⟨index, first, second⟩
    have inside := (List.findIdx?_eq_some_iff_getElem.1 first).1
    have there : arms[index]? = some arms[index] := List.getElem?_eq_getElem inside
    have whole := (describes_of_described first there).1
    refine ⟨index, arms[index], first, there, second, ?_, ?_, ?_⟩
    · intro World outside eval place
      exact Deed.Eval.evalArms_taken program checker.code second there
    · intro definition part
      exact Deed.Eval.mem_bindings_iff _
    · intro definition binder
      exact Deed.Eval.names_of_describes _ whole binder

end

end Deed.Typeck
