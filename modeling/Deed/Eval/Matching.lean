import Deed.Eval.Evaluator

/-!
# Which arm of a `match` is taken

What a whole pattern says of a value, the parts nested in it included, and what the
interpreter's matcher makes of it.  The matcher looks at the head of a pattern only, so the
two agree on a value exactly where the head decides.
-/

namespace Deed.Eval

open Deed.Ast
open Deed.Library

variable (program : Program) (code : Code)

/-! ## What a pattern says -/

/-- The variant that a definition stands for: one reached through a choice that was
imported is declared where the choice is. -/
def declaredVariant (definition : DefId) : Option Origin :=
  match code.kindOf definition with
  | .variant =>
      match (code.resolutions.definition definition).parent with
      | some choice =>
          if code.kindOf choice = .import then
            (code.resolutions.importModule choice).map fun path =>
              (path, code.nameOf definition)
          else some (code.path, code.nameOf definition)
      | none => some (code.path, code.nameOf definition)
  | .import =>
      if code.resolutions.imports definition = some .variant then
        (code.resolutions.importModule definition).map fun path =>
          (path, code.nameOf definition)
      else none
  | _ => none

/-- What the head of a pattern was resolved to. -/
def headOf (path : List Ident) : Option DefId := path.getLast?.bind code.defOf

/-- The name that a path binds, if it is one. -/
def binderOf : List Ident → Option DefId
  | [only] => (code.defOf only).filter fun definition => code.kindOf definition = .local
  | _ => none

/-- Whether a definition is of a record, declared here or imported. -/
def namesRecord (definition : DefId) : Bool :=
  code.kindOf definition = .record || code.importedRecord definition

/-- Whether a value is a variant. -/
def isVariant (value : Value) (variant : Origin) : Bool :=
  match value with
  | .variant origin name _ => origin == variant.1 && name == variant.2
  | _ => false

/-- The flag of the `Result` that a builtin makes. -/
def resultName (ok : Bool) : String := if ok then "ok" else "err"

mutual

/-- Whether a whole pattern describes a value. -/
def describes (value : Value) : Pattern → Bool
  | .wildcard _ => true
  | .int n _ => value.asInt == some n
  | .bool b _ => value.asBool == some b
  | .str s _ =>
      match value with
      | .str actual => actual == s
      | _ => false
  | .path segments _ =>
      (binderOf code segments).isSome ||
        ((headOf code segments).bind (declaredVariant code)).any (isVariant value)
  | .record path fields _ =>
      match value with
      | .variant _ _ held =>
          ((headOf code path).bind (declaredVariant code)).any (isVariant value) &&
            describesFields held fields
      | .record held => (headOf code path).any (namesRecord code) && describesFields held fields
      | _ => false
  | .tuple path elements _ =>
      match value with
      | .result ok inner =>
          builtinName code path == some (resultName ok) && describesAll inner elements
      | _ => false
  | .oneOf alternatives _ => describesAny value alternatives
  | .error _ => false

def describesAll (value : Value) : List Pattern → Bool
  | [] => true
  | pattern :: rest => describes value pattern && describesAll value rest

def describesAny (value : Value) : List Pattern → Bool
  | [] => false
  | pattern :: rest => describes value pattern || describesAny value rest

def describesFields (held : Fields) : List PatternField → Bool
  | [] => true
  | .mk name pattern _ :: rest =>
      (match Assoc.find? held name.name with
        | none => false
        | some inner =>
            match pattern with
            | some pattern => describes inner pattern
            | none => true) &&
        describesFields held rest

end

/-- The fields that a value keeps by name. -/
def fieldsOf : Value → Option Fields
  | .record held | .variant _ _ held => some held
  | _ => none

/-- A pattern gives a name to a part of a value. -/
inductive Names : Value → Pattern → DefId → Value → Prop where
  | here {value : Value} {only : Ident} {span : Span} {definition : DefId}
      (binds : binderOf code [only] = some definition) :
      Names value (.path [only] span) definition value
  | payload {ok : Bool} {inner part : Value} {path : List Ident} {elements : List Pattern}
      {span : Span} {element : Pattern} {definition : DefId} (listed : element ∈ elements)
      (names : Names inner element definition part) :
      Names (.result ok inner) (.tuple path elements span) definition part
  | field {value inner part : Value} {path : List Ident} {fields : List PatternField}
      {span written : Span} {name : Ident} {pattern : Pattern} {definition : DefId}
      (listed : .mk name (some pattern) written ∈ fields)
      (found : (fieldsOf value).bind (Assoc.find? · name.name) = some inner)
      (names : Names inner pattern definition part) :
      Names value (.record path fields span) definition part
  | shorthand {value part : Value} {path : List Ident} {fields : List PatternField}
      {span written : Span} {name : Ident} {definition : DefId}
      (listed : .mk name none written ∈ fields) (resolved : code.defOf name = some definition)
      (found : (fieldsOf value).bind (Assoc.find? · name.name) = some part) :
      Names value (.record path fields span) definition part

mutual

/-- The names that a pattern binds. -/
def bindersOf : Pattern → List DefId
  | .path segments _ => (binderOf code segments).toList
  | .record _ fields _ => bindersOfFields fields
  | .tuple _ elements _ => bindersOfAll elements
  | .wildcard _ | .int _ _ | .str _ _ | .bool _ _ | .oneOf _ _ | .error _ => []

def bindersOfAll : List Pattern → List DefId
  | [] => []
  | pattern :: rest => bindersOf pattern ++ bindersOfAll rest

def bindersOfFields : List PatternField → List DefId
  | [] => []
  | .mk name pattern _ :: rest =>
      (match pattern with
        | some pattern => bindersOf pattern
        | none => (code.defOf name).toList) ++ bindersOfFields rest

end

/-! ## Where the head decides -/

/-- The variant that a head says is the one the interpreter reads it as, or neither of
them is the value. -/
def ReadsHead (path : List Ident) (value : Value) : Prop :=
  ((headOf code path).bind (program.variantId code)).any (isVariant value) =
    ((headOf code path).bind (declaredVariant code)).any (isVariant value)

mutual

/-- The head of a pattern decides whether the whole pattern describes a value. -/
def HeadDecides (value : Value) : Pattern → Prop
  | .path segments _ =>
      segments = [] ∨ (binderOf code segments).isSome = true ∨
        ((headOf code segments).bind (program.variantId code)).isSome = true ∧
          ReadsHead program code segments value
  | .record path fields _ =>
      match value with
      | .variant _ _ held =>
          if describesFields code held fields = true then ReadsHead program code path value
          else ((headOf code path).bind (program.variantId code)).any (isVariant value) = false
      | .record held =>
          (headOf code path).any (namesRecord code) = true →
            describesFields code held fields = false
      | _ => True
  | .tuple path elements _ =>
      match value with
      | .result ok inner =>
          (builtinName code path = some (resultName ok) →
              describesAll code inner elements = true) ∧
            ∀ name, builtinName code path = some name → ok = false →
              name = "ok" ∨ name = "err"
      | _ => True
  | .oneOf alternatives _ =>
      EveryDecides value alternatives ∨ SomeDecides value alternatives ∨
        describesAny code value alternatives = true ∧ SomeFits value alternatives
  | .wildcard _ | .int _ _ | .str _ _ | .bool _ _ | .error _ => True

def EveryDecides (value : Value) : List Pattern → Prop
  | [] => True
  | pattern :: rest => HeadDecides value pattern ∧ EveryDecides value rest

/-- One of the patterns describes a value, and its head decides that. -/
def SomeDecides (value : Value) : List Pattern → Prop
  | [] => False
  | pattern :: rest =>
      (HeadDecides value pattern ∧ describes code value pattern = true) ∨
        SomeDecides value rest

/-- The head of one of the patterns fits a value that the whole does not describe. -/
def SomeFits (value : Value) : List Pattern → Prop
  | [] => False
  | pattern :: rest =>
      (¬ HeadDecides value pattern ∧ describes code value pattern = false) ∨
        SomeFits value rest

end

attribute [grind =] HeadDecides describes

/-! ## The matcher -/

section Agreement

variable {program code} {value : Value}

theorem matchesAny_eq (patterns : List Pattern) :
    matchesAny program code value patterns = patterns.any (matchesPattern program code value) := by
  induction patterns with
  | nil => rfl
  | cons pattern rest ih => rw [matchesAny, ih, List.any_cons]

theorem describesAny_eq (patterns : List Pattern) :
    describesAny code value patterns = patterns.any (describes code value) := by
  induction patterns with
  | nil => rfl
  | cons pattern rest ih => rw [describesAny, ih, List.any_cons]

/-- What the interpreter reads as no variant was declared as none. -/
theorem declaredVariant_none {definition : DefId}
    (read : program.variantId code definition = none) : declaredVariant code definition = none := by
  unfold Program.variantId at read
  unfold declaredVariant
  cases kind : code.kindOf definition <;> rw [kind] at read <;> try rfl
  case variant => exact absurd read (Option.some_ne_none _)
  case «import» =>
    by_cases imported : code.resolutions.imports definition = some .variant
    · simp only [if_pos imported, Option.map_eq_none_iff] at read ⊢
      exact read
    · simp only [if_neg imported]

theorem binderOf_some {segments : List Ident} (binds : (binderOf code segments).isSome = true) :
    ∃ only definition, segments = [only] ∧ code.defOf only = some definition ∧
      code.kindOf definition = .local := by
  rcases segments with _ | ⟨only, _ | ⟨next, more⟩⟩
  · exact absurd binds Bool.false_ne_true
  · rcases Option.isSome_iff_exists.1 binds with ⟨definition, found⟩
    rw [binderOf, Option.filter_eq_some_iff] at found
    exact ⟨only, definition, rfl, found.1, of_decide_eq_true found.2⟩
  · exact absurd binds Bool.false_ne_true

/-- The matcher's reading of a path: a binding, or the variant that its head is. -/
theorem matchesPattern_path {segments : List Ident} {span : Span} (some_ : segments ≠ []) :
    matchesPattern program code value (.path segments span) =
      (((headOf code segments).bind (program.variantId code)).map (isVariant value)).getD true := by
  have last : segments.getLast? = some (segments.getLast some_) := List.getLast?_eq_some_getLast some_
  simp only [matchesPattern, headOf, last, Option.bind_some]
  cases (code.defOf (segments.getLast some_)).bind (program.variantId code) with
  | none => rfl
  | some variant => cases value <;> rfl

theorem headDecides_path (segments : List Ident) (span : Span) :
    HeadDecides program code value (.path segments span) ↔
      matchesPattern program code value (.path segments span) =
        describes code value (.path segments span) := by
  rw [HeadDecides, describes]
  by_cases empty : segments = []
  · subst empty
    exact iff_of_true (Or.inl rfl) rfl
  rw [matchesPattern_path empty]
  cases binds : (binderOf code segments).isSome with
  | true =>
      rcases binderOf_some binds with ⟨only, definition, rfl, found, kind⟩
      have bare : program.variantId code definition = none := by
        rw [Program.variantId, kind]
      have head : headOf code [only] = some definition := found
      rw [head, Option.bind_some, bare]
      exact iff_of_true (Or.inr (Or.inl rfl)) rfl
  | false =>
      rw [Bool.false_or]
      cases read : (headOf code segments).bind (program.variantId code) with
      | none =>
          have undeclared : (headOf code segments).bind (declaredVariant code) = none := by
            cases head : headOf code segments with
            | none => rfl
            | some definition =>
                rw [head, Option.bind_some] at read
                exact declaredVariant_none read
          rw [undeclared]
          constructor
          · rintro (nothing | impossible | ⟨impossible, -⟩)
            · exact absurd nothing empty
            · exact absurd impossible Bool.false_ne_true
            · exact absurd impossible Bool.false_ne_true
          · intro same
            exact absurd same Bool.noConfusion
      | some variant =>
          constructor
          · rintro (nothing | impossible | ⟨-, reads⟩)
            · exact absurd nothing empty
            · exact absurd impossible Bool.false_ne_true
            · rw [ReadsHead, read] at reads
              exact reads
          · intro same
            refine Or.inr (Or.inr ⟨rfl, ?_⟩)
            rw [ReadsHead, read]
            exact same

theorem matchesPattern_record {path : List Ident} {fields : List PatternField} {span : Span} :
    matchesPattern program code value (.record path fields span) =
      ((headOf code path).bind (program.variantId code)).any (isVariant value) := by
  simp only [matchesPattern, headOf]
  cases path.getLast? with
  | none => cases value <;> rfl
  | some ident =>
      rw [Option.bind_some]
      cases value <;>
        first | rfl | cases (code.defOf ident).bind (program.variantId code) <;> rfl

theorem headDecides_record (path : List Ident) (fields : List PatternField) (span : Span) :
    HeadDecides program code value (.record path fields span) ↔
      matchesPattern program code value (.record path fields span) =
        describes code value (.record path fields span) := by
  rw [matchesPattern_record]
  cases value with
  | variant origin name held =>
      rw [HeadDecides, describes, ReadsHead]
      cases describesFields code held fields with
      | true => rw [if_pos rfl, Bool.and_true]
      | false => rw [if_neg Bool.false_ne_true, Bool.and_false]
  | record held =>
      have never : ∀ variant : Origin, isVariant (.record held) variant = false := fun _ => rfl
      have passed : ((headOf code path).bind (program.variantId code)).any
          (isVariant (.record held)) = false := by
        cases (headOf code path).bind (program.variantId code) <;> rfl
      rw [HeadDecides, describes, passed]
      cases (headOf code path).any (namesRecord code) with
      | true =>
          rw [Bool.true_and]
          exact ⟨fun passes => (passes rfl).symm, fun same _ => same.symm⟩
      | false =>
          rw [Bool.false_and]
          exact iff_of_true (fun impossible => absurd impossible Bool.false_ne_true) rfl
  | _ =>
      rw [HeadDecides, describes]
      · cases (headOf code path).bind (program.variantId code) <;> exact iff_of_true trivial rfl
      all_goals simp

theorem headDecides_tuple (path : List Ident) (elements : List Pattern) (span : Span) :
    HeadDecides program code value (.tuple path elements span) ↔
      matchesPattern program code value (.tuple path elements span) =
        describes code value (.tuple path elements span) := by
  cases value with
  | result ok inner =>
      rw [HeadDecides, matchesPattern, describes]
      cases named : builtinName code path with
      | none => simp
      | some name =>
          cases ok <;> cases describesAll code inner elements <;>
            by_cases good : name = "ok" <;> by_cases bad : name = "err" <;>
            simp_all [resultName]
  | _ =>
      rw [HeadDecides, matchesPattern, describes]
      · exact iff_of_true trivial rfl
      all_goals simp

/-- Whether two tests agree on there being an element that passes. -/
theorem any_eq_iff {α : Type} (first second : α → Bool) (list : List α) :
    list.any first = list.any second ↔
      (∀ a ∈ list, first a = second a) ∨ (∃ a ∈ list, first a = second a ∧ second a = true) ∨
        list.any second = true ∧ ∃ a ∈ list, first a ≠ second a ∧ second a = false := by
  constructor
  · intro same
    cases passes : list.any second with
    | false =>
        refine Or.inl fun a listed => ?_
        rw [passes] at same
        rw [Bool.eq_false_iff.2 (List.any_eq_false.1 same a listed),
          Bool.eq_false_iff.2 (List.any_eq_false.1 passes a listed)]
    | true =>
        rw [passes] at same
        rcases List.any_eq_true.1 same with ⟨a, listed, holds⟩
        cases whole : second a with
        | true => exact Or.inr (Or.inl ⟨a, listed, holds.trans whole.symm, whole⟩)
        | false =>
            refine Or.inr (Or.inr ⟨rfl, a, listed, ?_, whole⟩)
            rw [holds, whole]
            exact Bool.noConfusion
  · rintro (every | ⟨a, listed, same, whole⟩ | ⟨passes, a, listed, apart, whole⟩)
    · rw [Bool.eq_iff_iff, List.any_eq_true, List.any_eq_true]
      constructor
      · rintro ⟨a, listed, holds⟩
        exact ⟨a, listed, (every a listed).symm.trans holds⟩
      · rintro ⟨a, listed, holds⟩
        exact ⟨a, listed, (every a listed).trans holds⟩
    · rw [List.any_eq_true.2 ⟨a, listed, same.trans whole⟩, List.any_eq_true.2 ⟨a, listed, whole⟩]
    · rw [passes]
      refine List.any_eq_true.2 ⟨a, listed, ?_⟩
      rw [whole] at apart
      exact Bool.eq_true_of_not_eq_false apart

end Agreement

mutual

/-- The interpreter's matcher says what the whole pattern does exactly where the head
decides. -/
theorem headDecides_iff (value : Value) : ∀ pattern : Pattern,
    HeadDecides program code value pattern ↔
      matchesPattern program code value pattern = describes code value pattern
  | .wildcard _ => by
      rw [HeadDecides, matchesPattern, describes]
      exact iff_of_true trivial rfl
  | .int n _ => by
      rw [HeadDecides, matchesPattern, describes]
      exact iff_of_true trivial rfl
  | .bool b _ => by
      rw [HeadDecides, matchesPattern, describes]
      exact iff_of_true trivial rfl
  | .str s _ => by
      rw [HeadDecides]
      refine iff_of_true trivial ?_
      cases value <;> rfl
  | .error _ => by
      rw [HeadDecides, matchesPattern, describes]
      exact iff_of_true trivial rfl
  | .path segments span => headDecides_path segments span
  | .record path fields span => headDecides_record path fields span
  | .tuple path elements span => headDecides_tuple path elements span
  | .oneOf alternatives _ => by
      rw [HeadDecides, everyDecides_iff value alternatives, someDecides_iff value alternatives,
        someFits_iff value alternatives, matchesPattern, describes, matchesAny_eq, describesAny_eq,
        any_eq_iff]

theorem everyDecides_iff (value : Value) : ∀ patterns : List Pattern,
    EveryDecides program code value patterns ↔ ∀ pattern ∈ patterns,
      matchesPattern program code value pattern = describes code value pattern
  | [] => by
      rw [EveryDecides]
      exact iff_of_true trivial fun pattern listed => absurd listed List.not_mem_nil
  | pattern :: rest => by
      rw [EveryDecides, headDecides_iff value pattern, everyDecides_iff value rest,
        List.forall_mem_cons]

theorem someDecides_iff (value : Value) : ∀ patterns : List Pattern,
    SomeDecides program code value patterns ↔ ∃ pattern ∈ patterns,
      matchesPattern program code value pattern = describes code value pattern ∧
        describes code value pattern = true
  | [] => by
      rw [SomeDecides]
      exact iff_of_false id fun ⟨pattern, listed, _⟩ => List.not_mem_nil listed
  | pattern :: rest => by
      rw [SomeDecides, headDecides_iff value pattern, someDecides_iff value rest,
        List.exists_mem_cons_iff]

theorem someFits_iff (value : Value) : ∀ patterns : List Pattern,
    SomeFits program code value patterns ↔ ∃ pattern ∈ patterns,
      matchesPattern program code value pattern ≠ describes code value pattern ∧
        describes code value pattern = false
  | [] => by
      rw [SomeFits]
      exact iff_of_false id fun ⟨pattern, listed, _⟩ => List.not_mem_nil listed
  | pattern :: rest => by
      rw [SomeFits, headDecides_iff value pattern, someFits_iff value rest,
        List.exists_mem_cons_iff]

end

/-! ## Binding -/

section Binding

variable {code}

mutual

/-- What a pattern binds is what it names. -/
theorem mem_bindings_iff {definition : DefId} {part : Value} :
    ∀ {value : Value} (pattern : Pattern),
      (definition, part) ∈ bindings code value pattern ↔ Names code value pattern definition part
  | _, .wildcard _ | _, .int _ _ | _, .bool _ _ | _, .str _ _ | _, .oneOf _ _ | _, .error _ => by
      rw [bindings]
      exact iff_of_false List.not_mem_nil (by rintro ⟨⟩)
  | value, .path segments span => by
      rcases segments with _ | ⟨only, _ | ⟨next, more⟩⟩
      · exact iff_of_false List.not_mem_nil (by rintro ⟨⟩)
      · simp only [bindings]
        constructor
        · intro bound
          cases found : code.defOf only with
          | none =>
              rw [found] at bound
              exact absurd bound List.not_mem_nil
          | some resolved =>
              simp only [found] at bound
              by_cases kind : code.kindOf resolved = .local
              · rw [if_pos kind] at bound
                cases List.mem_singleton.1 bound
                exact .here (Option.filter_eq_some_iff.2 ⟨found, decide_eq_true kind⟩)
              · rw [if_neg kind] at bound
                exact absurd bound List.not_mem_nil
        · rintro ⟨binds⟩
          rw [binderOf, Option.filter_eq_some_iff] at binds
          simp only [binds.1]
          rw [if_pos (of_decide_eq_true binds.2)]
          exact List.mem_singleton.2 rfl
      · exact iff_of_false List.not_mem_nil (by rintro ⟨⟩)
  | value, .tuple path elements span => by
      cases value with
      | result ok inner =>
          rw [bindings, mem_bindingsAll_iff elements]
          constructor
          · rintro ⟨element, listed, names⟩
            exact .payload listed names
          · intro names
            cases names with
            | payload listed names => exact ⟨_, listed, names⟩
      | _ =>
          rw [bindings]
          · exact iff_of_false List.not_mem_nil (by rintro ⟨⟩)
          · simp
  | value, .record path fields span => by
      have inside : ∀ held : Fields, fieldsOf value = some held →
          ((definition, part) ∈ bindingsFields code held fields ↔
            Names code value (.record path fields span) definition part) := by
        intro held kept
        rw [mem_bindingsFields_iff fields]
        constructor
        · rintro (⟨name, pattern, written, inner, listed, found, names⟩ |
            ⟨name, written, listed, found, resolved⟩)
          · exact .field listed (by rw [kept]; exact found) names
          · exact .shorthand listed resolved (by rw [kept]; exact found)
        · intro names
          cases names with
          | field listed found names =>
              rw [kept] at found
              exact Or.inl ⟨_, _, _, _, listed, found, names⟩
          | shorthand listed resolved found =>
              rw [kept] at found
              exact Or.inr ⟨_, _, listed, found, resolved⟩
      cases value with
      | variant origin name held => exact inside held rfl
      | record held => exact inside held rfl
      | _ =>
          rw [bindings]
          · refine iff_of_false List.not_mem_nil ?_
            rintro ⟨⟩ <;> contradiction
          all_goals simp

theorem mem_bindingsAll_iff {definition : DefId} {part : Value} :
    ∀ {value : Value} (elements : List Pattern),
      (definition, part) ∈ bindingsAll code value elements ↔
        ∃ element ∈ elements, Names code value element definition part
  | _, [] => by
      rw [bindingsAll]
      exact iff_of_false List.not_mem_nil fun ⟨_, listed, _⟩ => List.not_mem_nil listed
  | _, element :: rest => by
      rw [bindingsAll, List.mem_append, mem_bindings_iff element, mem_bindingsAll_iff rest,
        List.exists_mem_cons_iff]

theorem mem_bindingsFields_iff {definition : DefId} {part : Value} :
    ∀ {held : Fields} (fields : List PatternField),
      (definition, part) ∈ bindingsFields code held fields ↔
        (∃ name pattern written inner, .mk name (some pattern) written ∈ fields ∧
          Assoc.find? held name.name = some inner ∧ Names code inner pattern definition part) ∨
        ∃ name written, .mk name none written ∈ fields ∧
          Assoc.find? held name.name = some part ∧ code.defOf name = some definition
  | _, [] => by
      rw [bindingsFields]
      refine iff_of_false List.not_mem_nil ?_
      rintro (⟨_, _, _, _, listed, _⟩ | ⟨_, _, listed, _⟩)
      · exact List.not_mem_nil listed
      · exact List.not_mem_nil listed
  | held, .mk name (some pattern) written :: rest => by
      rw [bindingsFields, List.mem_append, mem_bindingsFields_iff rest]
      constructor
      · rintro (bound | ⟨name, pattern, written, inner, listed, more⟩ |
          ⟨name, written, listed, more⟩)
        · cases found : Assoc.find? held name.name with
          | none =>
              rw [found] at bound
              exact absurd bound List.not_mem_nil
          | some inner =>
              simp only [found] at bound
              exact Or.inl ⟨name, pattern, written, inner, List.mem_cons_self, found,
                (mem_bindings_iff pattern).1 bound⟩
        · exact Or.inl ⟨name, pattern, written, inner, List.mem_cons_of_mem _ listed, more⟩
        · exact Or.inr ⟨name, written, List.mem_cons_of_mem _ listed, more⟩
      · rintro (⟨_, _, _, inner, listed, found, names⟩ | ⟨_, _, listed, more⟩)
        · rcases List.mem_cons.1 listed with same | later
          · cases same
            left
            simp only [found]
            exact (mem_bindings_iff pattern).2 names
          · exact Or.inr (Or.inl ⟨_, _, _, inner, later, found, names⟩)
        · rcases List.mem_cons.1 listed with same | later
          · cases same
          · exact Or.inr (Or.inr ⟨_, _, later, more⟩)
  | held, .mk name none written :: rest => by
      rw [bindingsFields, List.mem_append, mem_bindingsFields_iff rest]
      constructor
      · rintro (bound | ⟨name, pattern, written, inner, listed, more⟩ |
          ⟨name, written, listed, more⟩)
        · cases found : Assoc.find? held name.name with
          | none =>
              rw [found] at bound
              exact absurd bound List.not_mem_nil
          | some inner =>
              simp only [found] at bound
              rcases List.mem_map.1 bound with ⟨resolved, listed, same⟩
              cases same
              exact Or.inr ⟨name, written, List.mem_cons_self, found, Option.mem_toList.1 listed⟩
        · exact Or.inl ⟨name, pattern, written, inner, List.mem_cons_of_mem _ listed, more⟩
        · exact Or.inr ⟨name, written, List.mem_cons_of_mem _ listed, more⟩
      · rintro (⟨_, _, _, inner, listed, more⟩ | ⟨_, _, listed, found, resolved⟩)
        · rcases List.mem_cons.1 listed with same | later
          · cases same
          · exact Or.inr (Or.inl ⟨_, _, _, inner, later, more⟩)
        · rcases List.mem_cons.1 listed with same | later
          · cases same
            left
            simp only [found, resolved, Option.toList_some, List.map_singleton]
            exact List.mem_singleton.2 rfl
          · exact Or.inr (Or.inr ⟨_, _, later, found, resolved⟩)

end

mutual

/-- A pattern that describes a value has a part for each of its names. -/
theorem names_of_describes {definition : DefId} :
    ∀ {value : Value} (pattern : Pattern), describes code value pattern = true →
      definition ∈ bindersOf code pattern → ∃ part, Names code value pattern definition part
  | _, .wildcard _, _, binder | _, .int _ _, _, binder | _, .bool _ _, _, binder
  | _, .str _ _, _, binder | _, .oneOf _ _, _, binder | _, .error _, _, binder => by
      rw [bindersOf] at binder
      exact absurd binder List.not_mem_nil
  | value, .path segments span, _, binder => by
      rw [bindersOf, Option.mem_toList] at binder
      have binds : (binderOf code segments).isSome = true := by
        rw [binder]
        rfl
      rcases binderOf_some binds with ⟨only, resolved, rfl, -⟩
      exact ⟨value, .here binder⟩
  | value, .tuple path elements span, whole, binder => by
      cases value with
      | result ok inner =>
          rw [describes, Bool.and_eq_true] at whole
          rcases namesAll_of_describes elements whole.2 binder with ⟨element, listed, part, names⟩
          exact ⟨part, .payload listed names⟩
      | _ =>
          rw [describes] at whole
          · exact absurd whole Bool.false_ne_true
          · simp
  | value, .record path fields span, whole, binder => by
      have inside : ∀ held : Fields, fieldsOf value = some held →
          describesFields code held fields = true →
          ∃ part, Names code value (.record path fields span) definition part := by
        intro held kept parts
        rcases namesFields_of_describes fields parts binder with
          ⟨name, pattern, written, inner, part, listed, found, names⟩ |
          ⟨name, written, part, listed, found, resolved⟩
        · exact ⟨part, .field listed (by rw [kept]; exact found) names⟩
        · exact ⟨part, .shorthand listed resolved (by rw [kept]; exact found)⟩
      cases value with
      | variant origin name held =>
          rw [describes, Bool.and_eq_true] at whole
          exact inside held rfl whole.2
      | record held =>
          rw [describes, Bool.and_eq_true] at whole
          exact inside held rfl whole.2
      | _ =>
          rw [describes] at whole
          · exact absurd whole Bool.false_ne_true
          all_goals simp

theorem namesAll_of_describes {definition : DefId} :
    ∀ {value : Value} (elements : List Pattern), describesAll code value elements = true →
      definition ∈ bindersOfAll code elements →
      ∃ element ∈ elements, ∃ part, Names code value element definition part
  | _, [], _, binder => absurd binder List.not_mem_nil
  | value, element :: rest, whole, binder => by
      rw [describesAll, Bool.and_eq_true] at whole
      rw [bindersOfAll, List.mem_append] at binder
      rcases binder with here | later
      · rcases names_of_describes element whole.1 here with ⟨part, names⟩
        exact ⟨element, List.mem_cons_self, part, names⟩
      · rcases namesAll_of_describes rest whole.2 later with ⟨other, listed, part, names⟩
        exact ⟨other, List.mem_cons_of_mem _ listed, part, names⟩

theorem namesFields_of_describes {definition : DefId} :
    ∀ {held : Fields} (fields : List PatternField), describesFields code held fields = true →
      definition ∈ bindersOfFields code fields →
      (∃ name pattern written inner part, .mk name (some pattern) written ∈ fields ∧
        Assoc.find? held name.name = some inner ∧ Names code inner pattern definition part) ∨
      ∃ name written part, .mk name none written ∈ fields ∧
        Assoc.find? held name.name = some part ∧ code.defOf name = some definition
  | _, [], _, binder => absurd binder List.not_mem_nil
  | held, .mk name (some pattern) written :: rest, whole, binder => by
      rw [describesFields, Bool.and_eq_true] at whole
      rw [bindersOfFields, List.mem_append] at binder
      rcases binder with here | later
      · cases found : Assoc.find? held name.name with
        | none =>
            rw [found] at whole
            exact absurd whole.1 Bool.false_ne_true
        | some inner =>
            simp only [found] at whole
            rcases names_of_describes pattern whole.1 here with ⟨part, names⟩
            exact Or.inl ⟨name, pattern, written, inner, part, List.mem_cons_self, found, names⟩
      · rcases namesFields_of_describes rest whole.2 later with
          ⟨other, inside, place, inner, part, listed, more⟩ | ⟨other, place, part, listed, more⟩
        · exact Or.inl ⟨other, inside, place, inner, part, List.mem_cons_of_mem _ listed, more⟩
        · exact Or.inr ⟨other, place, part, List.mem_cons_of_mem _ listed, more⟩
  | held, .mk name none written :: rest, whole, binder => by
      rw [describesFields, Bool.and_eq_true] at whole
      rw [bindersOfFields, List.mem_append] at binder
      rcases binder with here | later
      · cases found : Assoc.find? held name.name with
        | none =>
            rw [found] at whole
            exact absurd whole.1 Bool.false_ne_true
        | some part =>
            exact Or.inr ⟨name, written, part, List.mem_cons_self, found,
              Option.mem_toList.1 here⟩
      · rcases namesFields_of_describes rest whole.2 later with
          ⟨other, inside, place, inner, part, listed, more⟩ | ⟨other, place, part, listed, more⟩
        · exact Or.inl ⟨other, inside, place, inner, part, List.mem_cons_of_mem _ listed, more⟩
        · exact Or.inr ⟨other, place, part, List.mem_cons_of_mem _ listed, more⟩

end

end Binding

/-! ## The arm that is taken -/

section Arms

/-- The first arm whose whole pattern describes a value. -/
def described (value : Value) (arms : List MatchArm) : Option Nat :=
  arms.findIdx? fun arm => describes code value arm.pattern

/-- The first arm that the interpreter's matcher accepts a value for. -/
def taken (value : Value) (arms : List MatchArm) : Option Nat :=
  arms.findIdx? fun arm => matchesPattern program code value arm.pattern

/-- The interpreter runs the body of the arm that is taken, with what its pattern binds. -/
theorem evalArms_taken {World : Type} {outside : Outside World}
    {eval : Expr → Eval World Value} {value : Value} {span : Span} {arms : List MatchArm}
    {index : Nat} {arm : MatchArm} (found : taken program code value arms = some index)
    (there : arms[index]? = some arm) :
    evalArms program outside eval code value span arms = (do
      bindPattern program value arm.pattern
      eval arm.body) := by
  induction arms generalizing index with
  | nil => exact absurd found.symm (Option.some_ne_none index)
  | cons first rest ih =>
      rcases first with ⟨pattern, body, written⟩
      rw [taken, List.findIdx?_cons] at found
      rw [evalArms]
      cases accepts : matchesPattern program code value pattern with
      | true =>
          rw [if_pos (show matchesPattern program code value
            (MatchArm.mk pattern body written).pattern = true from accepts)] at found
          rw [← Option.some.inj found] at there
          rw [if_pos rfl, ← Option.some.inj there]
          rfl
      | false =>
          rw [if_neg (by rw [MatchArm.pattern, accepts]; exact Bool.false_ne_true)] at found
          rcases Option.map_eq_some_iff.1 found with ⟨before, later, rfl⟩
          rw [if_neg Bool.false_ne_true]
          exact ih later there

/-- Two tests find the same element first exactly where they agree on every element up to
the first that passes one of them. -/
theorem findIdx?_eq_iff {α : Type} (first second : α → Bool) (list : List α) :
    (∃ index, list.findIdx? second = some index ∧ list.findIdx? first = some index) ↔
      (∃ a ∈ list, second a = true) ∧ ∀ (index : Nat) (a : α), list[index]? = some a →
        (∀ (earlier : Nat) (b : α), earlier < index → list[earlier]? = some b →
          second b = false) → first a = second a := by
  induction list with
  | nil =>
      constructor
      · rintro ⟨index, found, -⟩
        exact absurd found.symm (Option.some_ne_none index)
      · rintro ⟨⟨a, listed, -⟩, -⟩
        exact absurd listed List.not_mem_nil
  | cons head rest ih =>
      rw [List.findIdx?_cons, List.findIdx?_cons]
      cases whole : second head with
      | true =>
          rw [if_pos rfl]
          constructor
          · rintro ⟨index, found, also⟩
            refine ⟨⟨head, List.mem_cons_self, whole⟩, ?_⟩
            intro position a there before
            rcases position with _ | position
            · rw [← Option.some.inj there, whole]
              cases accepts : first head with
              | true => rfl
              | false =>
                  rw [accepts, if_neg Bool.false_ne_true] at also
                  rcases Option.map_eq_some_iff.1 also with ⟨before, -, same⟩
                  rw [← Option.some.inj found] at same
                  exact absurd same (Nat.succ_ne_zero before)
            · have passed := before 0 head (Nat.succ_pos position) rfl
              rw [whole] at passed
              exact absurd passed.symm Bool.false_ne_true
          · rintro ⟨-, agree⟩
            have accepts := agree 0 head rfl
              fun earlier b before => absurd before (Nat.not_lt_zero earlier)
            rw [whole] at accepts
            exact ⟨0, rfl, by rw [accepts, if_pos rfl]⟩
      | false =>
          rw [if_neg Bool.false_ne_true]
          have shifted : ∀ index : Nat, ∀ a : α, (∀ (earlier : Nat) (b : α),
              earlier < index + 1 → (head :: rest)[earlier]? = some b → second b = false) ↔
              ∀ (earlier : Nat) (b : α), earlier < index → rest[earlier]? = some b →
                second b = false := by
            intro index a
            constructor
            · intro before earlier b less there
              exact before (earlier + 1) b (Nat.succ_lt_succ less) there
            · intro before earlier b less there
              rcases earlier with _ | earlier
              · rw [← Option.some.inj there, whole]
              · exact before earlier b (Nat.lt_of_succ_lt_succ less) there
          cases accepts : first head with
          | true =>
              rw [if_pos rfl]
              constructor
              · rintro ⟨index, found, also⟩
                rcases Option.map_eq_some_iff.1 found with ⟨before, -, same⟩
                rw [← Option.some.inj also] at same
                exact absurd same (Nat.succ_ne_zero before)
              · rintro ⟨-, agree⟩
                have same := agree 0 head rfl
                  fun earlier b before => absurd before (Nat.not_lt_zero earlier)
                rw [accepts, whole] at same
                exact absurd same.symm Bool.false_ne_true
          | false =>
              rw [if_neg Bool.false_ne_true]
              constructor
              · rintro ⟨index, found, also⟩
                rcases Option.map_eq_some_iff.1 found with ⟨before, inner, rfl⟩
                rcases Option.map_eq_some_iff.1 also with ⟨other, outer, same⟩
                rw [Nat.succ.inj same] at outer
                rcases ih.1 ⟨before, inner, outer⟩ with ⟨⟨a, listed, holds⟩, agree⟩
                refine ⟨⟨a, List.mem_cons_of_mem _ listed, holds⟩, ?_⟩
                intro position a there before
                rcases position with _ | position
                · rw [← Option.some.inj there, accepts, whole]
                · exact agree position a there ((shifted position a).1 before)
              · rintro ⟨⟨a, listed, holds⟩, agree⟩
                have inside : a ∈ rest := by
                  rcases List.mem_cons.1 listed with rfl | later
                  · rw [whole] at holds
                    exact absurd holds Bool.false_ne_true
                  · exact later
                rcases ih.2 ⟨⟨a, inside, holds⟩, fun position a there before =>
                  agree (position + 1) a there ((shifted position a).2 before)⟩ with
                  ⟨index, found, also⟩
                exact ⟨index + 1, by rw [found]; rfl, by rw [also]; rfl⟩

end Arms

end Deed.Eval
