import Deed.Codegen.Datum
import Deed.Eval.Matching
import Deed.Lowering.Match
import Deed.Typeck.Exhaustive

/-!
# What a lowered pattern stands for

When the datum that compiled code has in memory shows a value of the interpreter, the
variants that a lowered pattern lists contain the one that is there wherever the pattern
describes the value, and every read it was given leads to the part that the name names.
-/

namespace Deed.Lowering

open Deed.Ast (Ident MatchArm Pattern PatternField)
open Deed.Codegen (Datum)
open Deed.Eval (Code DefId Fields Names Value binderOf bindersOf bindersOfAll bindersOfFields
  builtinName declaredVariant describes describesAll describesAny describesFields headOf
  isVariant resultName)
open Deed.Library
open Deed.Mir
open Deed.Typeck (Checker)

/-- A sequence that succeeded is two parts that did. -/
theorem ok_of_bind {ε α β : Type} {first : Except ε α} {next : α → Except ε β} {b : β}
    (ran : (first >>= next) = .ok b) : ∃ a, first = .ok a ∧ next a = .ok b := by
  cases first with
  | error e => exact absurd ran (by rintro ⟨⟩)
  | ok a => exact ⟨a, rfl, ran⟩

theorem ok_of_found {α : Type} {option : Option α} {what : String} {span : Ast.Span} {value : α}
    (ran : found option what span = .ok value) : option = some value := by
  cases option with
  | none => exact absurd ran (by rintro ⟨⟩)
  | some held => rw [Except.ok.inj ran]

section Shows

variable (program : Program) (leaf : Ty → Value → Datum → Prop)

/-- A datum of a type shows a value of the interpreter: a choice by the index of the
variant of that name, a `Result` as the choice of `ok` and `err`, and a field by its place.
What a word that is not the address of a layout shows is `leaf`. -/
inductive Shows : Ty → Value → Datum → Prop where
  | leaf {ty : Ty} {value : Value} {datum : Datum} (bare : ∀ id, ty ≠ .aggregate id)
      (shows : leaf ty value datum) : Shows ty value datum
  | variant {id : LayoutId} {origin : String} {index : Nat} {held : Variant} {fields : Fields}
      {data : List Datum}
      (first : ((program.layout id).variants.findIdx? fun variant =>
        variant.name == held.name) = some index)
      (found : (program.layout id).variants[index]? = some held)
      (row : data.length = held.fields.length)
      (parts : ∀ (position : Nat) (field : Field) (part : Value) (datum : Datum),
        held.fields[position]? = some field → Assoc.find? fields field.name = some part →
        data[position]? = some datum → Shows field.ty part datum) :
      Shows (.aggregate id) (.variant origin held.name fields) (.made index data)
  | record {id : LayoutId} {held : Variant} {fields : Fields} {data : List Datum}
      (only : (program.layout id).variants = [held]) (row : data.length = held.fields.length)
      (parts : ∀ (position : Nat) (field : Field) (part : Value) (datum : Datum),
        held.fields[position]? = some field → Assoc.find? fields field.name = some part →
        data[position]? = some datum → Shows field.ty part datum) :
      Shows (.aggregate id) (.record fields) (.made 0 data)
  | result {id : LayoutId} {ok : Bool} {index : Nat} {held : Variant} {field : Field}
      {inner : Value} {datum : Datum}
      (first : ((program.layout id).variants.findIdx? fun variant =>
        variant.name == resultName ok) = some index)
      (found : (program.layout id).variants[index]? = some held)
      (only : held.fields = [field]) (shows : Shows field.ty inner datum) :
      Shows (.aggregate id) (.result ok inner) (.made index [datum])

/-- A path of fields leads from a datum of a type to a part of it. -/
inductive Leads : Ty → Datum → FieldPath → Ty → Datum → Prop where
  | here (ty : Ty) (datum : Datum) : Leads ty datum [] ty datum
  | field {id : LayoutId} {variant index : Nat} {data : List Datum} {path : FieldPath}
      {held : Variant} {field : Field} {inner datum : Datum} {ty : Ty}
      (found : (program.layout id).variants[variant]? = some held)
      (declared : held.fields[index]? = some field) (there : data[index]? = some inner)
      (leads : Leads field.ty inner path ty datum) :
      Leads (.aggregate id) (.made variant data) ((id, variant, index) :: path) ty datum

variable {program} in
/-- A path leads to one part. -/
theorem Leads.unique {ty first second : Ty} {datum one two : Datum} {path : FieldPath}
    (leads : Leads program ty datum path first one)
    (again : Leads program ty datum path second two) : first = second ∧ one = two := by
  induction leads with
  | here ty datum =>
      cases again with
      | here ty datum => exact ⟨rfl, rfl⟩
  | field found declared there leads ih =>
      cases again with
      | field found' declared' there' leads' =>
          rw [Option.some.inj (found'.symm.trans found)] at declared'
          rw [Option.some.inj (declared'.symm.trans declared),
            Option.some.inj (there'.symm.trans there)] at leads'
          exact ih leads'

/-- What a lowered pattern reads at the end of a path is what the name names. -/
def Bound (code : Code) (ty : Ty) (value : Value) (datum : Datum) (pattern : Pattern)
    (path : FieldPath) (name : Ident) : Prop :=
  ∃ inner part, Leads program ty datum path inner part ∧
    ∀ definition, code.defOf name = some definition → code.kindOf definition = .local →
      ∃ held, Names code value pattern definition held ∧ Shows program leaf inner held part

end Shows

/-! ## What the passes before left -/

section Resolved

variable (code : Code)

/-- What a path was resolved to is called what the path ends with. -/
def Spelled (path : List Ident) : Prop :=
  ∀ last definition, path.getLast? = some last → code.defOf last = some definition →
    code.nameOf definition = last.name

mutual

/-- A pattern as name resolution leaves one it accepts: a head is called what is written,
only a bare name is a binding, a field on its own declares a name, and no alternative binds
one. -/
def Resolved : Pattern → Prop
  | .path segments _ =>
      Spelled code segments ∧ ((binderOf code segments).isSome = true ∨
        ∀ definition, headOf code segments = some definition → code.kindOf definition ≠ .local)
  | .record path fields _ => Spelled code path ∧ ResolvedFields fields
  | .tuple path elements _ => Spelled code path ∧ ResolvedAll elements
  | .oneOf alternatives _ => ResolvedAll alternatives ∧ bindersOfAll code alternatives = []
  | .wildcard _ | .int _ _ | .str _ _ | .bool _ _ | .error _ => True

def ResolvedAll : List Pattern → Prop
  | [] => True
  | pattern :: rest => Resolved pattern ∧ ResolvedAll rest

def ResolvedFields : List PatternField → Prop
  | [] => True
  | .mk name pattern _ :: rest =>
      (match pattern with
        | some pattern => Resolved pattern
        | none => ∀ definition, code.defOf name = some definition →
            code.kindOf definition = .local) ∧ ResolvedFields rest

end

mutual

/-- What a resolved pattern binds is local. -/
theorem local_of_binder {definition : DefId} : ∀ pattern : Pattern, Resolved code pattern →
    definition ∈ bindersOf code pattern → code.kindOf definition = .local
  | .path segments span, _, binder => by
      rw [bindersOf, Option.mem_toList] at binder
      rcases Eval.binderOf_some (Option.isSome_iff_exists.2 ⟨definition, binder⟩) with
        ⟨only, other, rfl, found, kind⟩
      rw [binderOf, found, Option.filter_some, if_pos (decide_eq_true kind)] at binder
      rw [← Option.some.inj binder]
      exact kind
  | .record path fields span, resolved, binder => local_of_binderFields fields resolved.2 binder
  | .tuple path elements span, resolved, binder => local_of_binderAll elements resolved.2 binder
  | .wildcard _, _, binder | .int _ _, _, binder | .str _ _, _, binder | .bool _ _, _, binder
  | .oneOf _ _, _, binder | .error _, _, binder => absurd binder List.not_mem_nil

theorem local_of_binderAll {definition : DefId} : ∀ elements : List Pattern,
    ResolvedAll code elements → definition ∈ bindersOfAll code elements →
    code.kindOf definition = .local
  | [], _, binder => absurd binder List.not_mem_nil
  | pattern :: rest, resolved, binder => by
      rw [Eval.bindersOfAll, List.mem_append] at binder
      rcases binder with here | later
      · exact local_of_binder pattern resolved.1 here
      · exact local_of_binderAll rest resolved.2 later

theorem local_of_binderFields {definition : DefId} : ∀ fields : List PatternField,
    ResolvedFields code fields → definition ∈ bindersOfFields code fields →
    code.kindOf definition = .local
  | [], _, binder => absurd binder List.not_mem_nil
  | .mk name (some pattern) written :: rest, resolved, binder => by
      rw [bindersOfFields, List.mem_append] at binder
      rcases binder with here | later
      · exact local_of_binder pattern resolved.1 here
      · exact local_of_binderFields rest resolved.2 later
  | .mk name none written :: rest, resolved, binder => by
      rw [bindersOfFields, List.mem_append] at binder
      rcases binder with here | later
      · exact resolved.1 definition (Option.mem_toList.1 here)
      · exact local_of_binderFields rest resolved.2 later

end

end Resolved

/-! ## Heads -/

section Heads

variable {program : Program} {leaf : Ty → Value → Datum → Prop} {code : Code} {id : LayoutId}

theorem declaredVariant_name {definition : DefId} {variant : Eval.Origin}
    (declared : declaredVariant code definition = some variant) :
    variant.2 = code.nameOf definition := by
  unfold declaredVariant at declared
  cases kind : code.kindOf definition with
  | variant =>
      simp only [kind] at declared
      cases parent : (code.resolutions.definition definition).parent with
      | none =>
          simp only [parent] at declared
          rw [← Option.some.inj declared]
      | some choice =>
          simp only [parent] at declared
          by_cases imported : code.kindOf choice = .import
          · rw [if_pos imported] at declared
            rcases Option.map_eq_some_iff.1 declared with ⟨path, -, rfl⟩
            rfl
          · rw [if_neg imported] at declared
            rw [← Option.some.inj declared]
  | «import» =>
      simp only [kind] at declared
      by_cases imported : code.resolutions.imports definition = some .variant
      · rw [if_pos imported] at declared
        rcases Option.map_eq_some_iff.1 declared with ⟨path, -, rfl⟩
        rfl
      · rw [if_neg imported] at declared
        exact absurd declared.symm (Option.some_ne_none _)
  | _ =>
      simp only [kind] at declared
      exact absurd declared.symm (Option.some_ne_none _)

/-- A head that is the variant of a value is written the way the variant is called. -/
theorem name_of_head {path : List Ident} {origin name : String} {fields : Fields}
    (spelled : Spelled code path)
    (head : ((headOf code path).bind (declaredVariant code)).any
      (isVariant (.variant origin name fields)) = true) :
    ∃ last, path.getLast? = some last ∧ last.name = name := by
  rcases (Option.any_eq_true _ _).1 head with ⟨variant, read, is⟩
  rcases Option.bind_eq_some_iff.1 read with ⟨definition, resolved, declared⟩
  rcases Option.bind_eq_some_iff.1 resolved with ⟨last, end_, found⟩
  refine ⟨last, end_, ?_⟩
  rw [isVariant, Bool.and_eq_true] at is
  rw [← spelled last definition end_ found, ← declaredVariant_name declared]
  exact (beq_iff_eq.1 is.2).symm

theorem variantNamed_last {path : List Ident} {span : Ast.Span} {index : Nat}
    (named : variantNamed program id path span = .ok index) :
    ∃ last, path.getLast? = some last ∧
      ((program.layout id).variants.findIdx? fun variant => variant.name == last.name) =
        some index := by
  rcases ok_of_bind named with ⟨last, end_, rest⟩
  exact ⟨last, ok_of_found end_, ok_of_found rest⟩

theorem fieldsOf_eq {variant : Nat} {held : Variant}
    (there : (program.layout id).variants[variant]? = some held) :
    fieldsOf program id variant = held.fields := by
  rw [fieldsOf, variantsOf, List.getD_eq_getElem?_getD, there, Option.getD_some]

/-- The field that a name finds. -/
theorem declared_of_found {variant index : Nat} {held : Variant} {name : String}
    (there : (program.layout id).variants[variant]? = some held)
    (found : ((fieldsOf program id variant).findIdx? fun declared => declared.name == name) =
      some index) :
    ∃ field, held.fields[index]? = some field ∧ field.name = name ∧
      ((fieldsOf program id variant).getD index ⟨"", .unit⟩).ty = field.ty := by
  rw [fieldsOf_eq there] at found ⊢
  rcases List.findIdx?_eq_some_iff_getElem.1 found with ⟨inside, called, -⟩
  refine ⟨held.fields[index], List.getElem?_eq_getElem inside, beq_iff_eq.1 called, ?_⟩
  rw [List.getD_eq_getElem?_getD, List.getElem?_eq_getElem inside, Option.getD_some]

theorem inside_of_named {path : List Ident} {span : Ast.Span} {index : Nat}
    (named : variantNamed program id path span = .ok index) :
    ∀ variant ∈ [index], variant < (program.layout id).variants.length := by
  intro variant listed
  rcases variantNamed_last named with ⟨last, -, found⟩
  rw [List.mem_singleton.1 listed]
  exact (List.findIdx?_eq_some_iff_getElem.1 found).1

/-- A datum is the variant at an index, and what its fields show. -/
def Opened (program : Program) (leaf : Ty → Value → Datum → Prop) (id : LayoutId)
    (fields : Fields) (index : Nat) (data : List Datum) : Prop :=
  ∃ held, (program.layout id).variants[index]? = some held ∧
    data.length = held.fields.length ∧
    ∀ (position : Nat) (field : Field) (part : Value) (datum : Datum),
      held.fields[position]? = some field → Assoc.find? fields field.name = some part →
      data[position]? = some datum → Shows program leaf field.ty part datum

/-- The variant that is there is the one that the head of a path names. -/
theorem index_of_head {path : List Ident} {span : Ast.Span} {origin name : String}
    {fields : Fields} {datum : Datum} {index : Nat} (spelled : Spelled code path)
    (head : ((headOf code path).bind (declaredVariant code)).any
      (isVariant (.variant origin name fields)) = true)
    (shows : Shows program leaf (.aggregate id) (.variant origin name fields) datum)
    (named : variantNamed program id path span = .ok index) :
    ∃ data, datum = .made index data ∧ Opened program leaf id fields index data := by
  rcases name_of_head spelled head with ⟨last, end_, same⟩
  rcases variantNamed_last named with ⟨other, again, found⟩
  rw [← Option.some.inj (end_.symm.trans again), same] at found
  cases shows with
  | leaf bare shows => exact absurd rfl (bare id)
  | variant first there row parts =>
      rw [Option.some.inj (found.symm.trans first)]
      exact ⟨_, rfl, _, there, row, parts⟩

/-- What a record pattern that describes a value opens. -/
theorem opened_of_record {path : List Ident} {fields : List PatternField} {span : Ast.Span}
    {value : Value} {datum : Datum} {index : Nat} (spelled : Spelled code path)
    (whole : describes code value (.record path fields span) = true)
    (shows : Shows program leaf (.aggregate id) value datum)
    (named : variantNamed program id path span = .ok index) :
    ∃ held data, Eval.fieldsOf value = some held ∧ datum = .made index data ∧
      Opened program leaf id held index data ∧ describesFields code held fields = true := by
  cases value with
  | variant origin name held =>
      rw [describes, Bool.and_eq_true] at whole
      rcases index_of_head spelled whole.1 shows named with ⟨data, same, opened⟩
      exact ⟨held, data, rfl, same, opened, whole.2⟩
  | record held =>
      rw [describes, Bool.and_eq_true] at whole
      rcases variantNamed_last named with ⟨last, -, found⟩
      have inside := (List.findIdx?_eq_some_iff_getElem.1 found).1
      cases shows with
      | leaf bare shows => exact absurd rfl (bare id)
      | record only row parts =>
          rw [only, List.length_singleton, Nat.lt_one_iff] at inside
          subst inside
          exact ⟨held, _, rfl, rfl, ⟨_, by rw [only]; rfl, row, parts⟩, whole.2⟩
  | _ =>
      rw [describes] at whole
      · exact absurd whole Bool.false_ne_true
      all_goals simp

/-- What a pattern of a `Result` that describes a value opens. -/
theorem opened_of_tuple {path : List Ident} {elements : List Pattern} {span place : Ast.Span}
    {value : Value} {datum : Datum} {index : Nat} (spelled : Spelled code path)
    (whole : describes code value (.tuple path elements span) = true)
    (shows : Shows program leaf (.aggregate id) value datum)
    (named : variantNamed program id path place = .ok index) :
    ∃ ok inner held field part, value = .result ok inner ∧ datum = .made index [part] ∧
      (program.layout id).variants[index]? = some held ∧ held.fields = [field] ∧
      Shows program leaf field.ty inner part ∧ describesAll code inner elements = true := by
  cases value with
  | result ok inner =>
      rw [describes, Bool.and_eq_true] at whole
      have read := beq_iff_eq.1 whole.1
      rcases variantNamed_last named with ⟨last, end_, found⟩
      have same : last.name = resultName ok := by
        simp only [builtinName, end_, Option.bind_eq_bind, Option.bind_some] at read
        rcases Option.bind_eq_some_iff.1 read with ⟨definition, resolved, kind⟩
        by_cases builtin : code.kindOf definition = .builtin
        · rw [if_pos builtin] at kind
          rw [← spelled last definition end_ resolved]
          exact Option.some.inj kind
        · rw [if_neg builtin] at kind
          exact absurd kind.symm (Option.some_ne_none _)
      rw [same] at found
      cases shows with
      | leaf bare shows => exact absurd rfl (bare id)
      | result first there only shows =>
          rw [Option.some.inj (found.symm.trans first)]
          exact ⟨ok, inner, _, _, _, rfl, rfl, there, only, shows, whole.2⟩
  | _ =>
      rw [describes] at whole
      · exact absurd whole Bool.false_ne_true
      all_goals simp

end Heads

/-! ## What is read -/

section Reads

variable (program : Program) (leaf : Ty → Value → Datum → Prop) (code : Code)

/-- What a lowered pattern reads, and that it reads something for every name. -/
structure Reads (ty : Ty) (value : Value) (datum : Datum) (pattern : Pattern)
    (binders : List DefId) (bindings : List (FieldPath × Ident)) : Prop where
  bound : ∀ path name, (path, name) ∈ bindings →
    Bound program leaf code ty value datum pattern path name
  named : ∀ definition ∈ binders, ∃ path name, (path, name) ∈ bindings ∧
    code.defOf name = some definition

variable {program leaf code} {checker : Checker}

theorem Reads.none {ty : Ty} {value : Value} {datum : Datum} {pattern : Pattern} :
    Reads program leaf code ty value datum pattern [] [] where
  bound := fun _ _ listed => absurd listed List.not_mem_nil
  named := fun _ listed => absurd listed List.not_mem_nil

theorem Reads.append {ty : Ty} {value : Value} {datum : Datum} {pattern : Pattern}
    {binders more : List DefId} {bindings others : List (FieldPath × Ident)}
    (first : Reads program leaf code ty value datum pattern binders bindings)
    (second : Reads program leaf code ty value datum pattern more others) :
    Reads program leaf code ty value datum pattern (binders ++ more) (bindings ++ others) where
  bound := by
    intro path name listed
    rcases List.mem_append.1 listed with here | later
    · exact first.bound path name here
    · exact second.bound path name later
  named := by
    intro definition listed
    rcases List.mem_append.1 listed with here | later
    · rcases first.named definition here with ⟨path, name, present, resolved⟩
      exact ⟨path, name, List.mem_append_left _ present, resolved⟩
    · rcases second.named definition later with ⟨path, name, present, resolved⟩
      exact ⟨path, name, List.mem_append_right _ present, resolved⟩

/-- What is read of a part is read of the whole, one field further. -/
theorem Reads.part {value inner : Value} {data : List Datum} {datum : Datum}
    {pattern around : Pattern} {binders : List DefId} {bindings : List (FieldPath × Ident)}
    {id : LayoutId} {variant index : Nat} {held : Variant} {field : Field}
    (reads : Reads program leaf code field.ty inner datum pattern binders bindings)
    (found : (program.layout id).variants[variant]? = some held)
    (declared : held.fields[index]? = some field) (there : data[index]? = some datum)
    (names : ∀ definition part, Names code inner pattern definition part →
      Names code value around definition part) :
    Reads program leaf code (.aggregate id) value (.made variant data) around binders
      (bindings.map fun binding => ((id, variant, index) :: binding.1, binding.2)) where
  bound := by
    intro path name listed
    rcases List.mem_map.1 listed with ⟨⟨rest, called⟩, present, same⟩
    rcases Prod.mk.inj same with ⟨rfl, rfl⟩
    rcases reads.bound rest called present with ⟨last, part, leads, shown⟩
    refine ⟨last, part, .field found declared there leads, ?_⟩
    intro definition resolved kind
    rcases shown definition resolved kind with ⟨whole, named, shows⟩
    exact ⟨whole, names definition whole named, shows⟩
  named := by
    intro definition listed
    rcases reads.named definition listed with ⟨path, name, present, resolved⟩
    exact ⟨_, name, List.mem_map.2 ⟨(path, name), present, rfl⟩, resolved⟩

/-- A name in the place of a field binds the whole field. -/
theorem reads_name {ty : Ty} {value : Value} {datum : Datum} {segments : List Ident}
    {span : Ast.Span} {last : Ident} (end_ : segments.getLast? = some last)
    (resolved : Resolved code (.path segments span)) (shows : Shows program leaf ty value datum) :
    Reads program leaf code ty value datum (.path segments span)
      (bindersOf code (.path segments span)) [([], last)] where
  bound := by
    intro path name listed
    rcases Prod.mk.inj (List.mem_singleton.1 listed) with ⟨rfl, rfl⟩
    refine ⟨ty, datum, .here ty datum, ?_⟩
    intro definition found kind
    rw [Resolved] at resolved
    rcases resolved.2 with binds | apart
    · rcases Eval.binderOf_some binds with ⟨only, other, rfl, known, -⟩
      have same : only = name := Option.some.inj end_
      subst same
      refine ⟨value, .here ?_, shows⟩
      rw [binderOf, found, Option.filter_some, if_pos (decide_eq_true kind)]
    · refine absurd kind (apart definition ?_)
      rw [headOf, end_]
      exact found
  named := by
    intro definition listed
    rw [bindersOf, Option.mem_toList] at listed
    have binds : (binderOf code segments).isSome = true :=
      Option.isSome_iff_exists.2 ⟨definition, listed⟩
    rcases Eval.binderOf_some binds with ⟨only, other, rfl, known, kind⟩
    have same : only = last := Option.some.inj end_
    subst same
    refine ⟨[], only, List.mem_singleton.2 rfl, ?_⟩
    rw [binderOf, Option.filter_eq_some_iff] at listed
    exact listed.1

/-- The checker says nothing about a pattern that it binds at some type. -/
def Quiet (checker : Checker) (pattern : Pattern) : Prop :=
  ∃ ty, (checker.bindPattern ty pattern).2 = []

theorem ok_of_within {here : LayoutId × Nat × Nat} {ty : Ty} {span : Ast.Span}
    {inner : LayoutId → Except Unlowered Arm} {bindings : List (FieldPath × Ident)}
    (ran : within program here ty span inner = .ok bindings) :
    ∃ id arm, ty = .aggregate id ∧ inner id = .ok arm ∧
      bindings = arm.2.map fun binding => (here :: binding.1, binding.2) := by
  cases ty with
  | aggregate id =>
      rcases ok_of_bind ran with ⟨arm, lowered, rest⟩
      by_cases tested : arm.1.length ≠ (variantsOf program id).length
      · rw [if_pos tested] at rest
        exact absurd rest (by rintro ⟨⟩)
      · rw [if_neg tested] at rest
        exact ⟨id, arm, rfl, lowered, (Except.ok.inj rest).symm⟩
  | _ => exact absurd ran (by rintro ⟨⟩)

/-- The pattern of what a `Result` holds is in the place of its only field. -/
theorem part_of_tuple {element : Pattern} {path : List Ident} {span place : Ast.Span}
    {id : LayoutId} {value : Value} {datum : Datum} {index : Nat}
    {bindings : List (FieldPath × Ident)} (spelled : Spelled code path)
    (whole : describes code value (.tuple path [element] span) = true)
    (shows : Shows program leaf (.aggregate id) value datum)
    (named : variantNamed program id path place = .ok index)
    (lowered : tupleBindings program id index 0 [element] = .ok bindings) :
    ∃ ok inner held field part, value = .result ok inner ∧ datum = .made index [part] ∧
      (program.layout id).variants[index]? = some held ∧ held.fields[0]? = some field ∧
      Shows program leaf field.ty inner part ∧ describes code inner element = true ∧
      partBindings program (id, index, 0) field.ty element = .ok bindings := by
  rcases opened_of_tuple spelled whole shows named with
    ⟨ok, inner, held, field, part, rfl, rfl, found, only, shown, parts⟩
  rw [describesAll, describesAll, Bool.and_true] at parts
  rw [tupleBindings] at lowered
  rcases ok_of_bind lowered with ⟨bound, first, further⟩
  rcases ok_of_bind further with ⟨none_, empty, rest⟩
  rw [tupleBindings] at empty
  rw [← Except.ok.inj empty] at rest
  have whole : bound ++ [] = bindings := Except.ok.inj rest
  rw [List.append_nil] at whole
  have typed : ((fieldsOf program id index).getD 0 ⟨"", .unit⟩).ty = field.ty := by
    rw [fieldsOf_eq found, only]
    rfl
  rw [typed, whole] at first
  exact ⟨ok, inner, held, field, part, rfl, rfl, found, by rw [only]; rfl, shown, parts, first⟩

/-- What is read of what a `Result` holds is read of the `Result`. -/
theorem reads_of_part {element : Pattern} {path : List Ident} {span : Ast.Span}
    {id : LayoutId} {ok : Bool} {inner : Value} {part : Datum} {index : Nat} {held : Variant}
    {field : Field} {bindings : List (FieldPath × Ident)}
    (found : (program.layout id).variants[index]? = some held)
    (declared : held.fields[0]? = some field)
    (reads : Reads program leaf code field.ty inner part element (bindersOf code element)
      bindings) :
    Reads program leaf code (.aggregate id) (.result ok inner) (.made index [part])
      (.tuple path [element] span) (bindersOf code (.tuple path [element] span))
      (bindings.map fun binding => ((id, index, 0) :: binding.1, binding.2)) := by
  rw [bindersOf, Eval.bindersOfAll, Eval.bindersOfAll, List.append_nil]
  exact reads.part found declared rfl
    fun definition part names => .payload (List.mem_singleton.2 rfl) names

mutual

/-- A pattern in the place of a field reads what it names of the field. -/
theorem partBindings_reads : ∀ (pattern : Pattern) {ty : Ty}
    {value : Value} {datum : Datum} {here : LayoutId × Nat × Nat}
    {bindings : List (FieldPath × Ident)}, Shows program leaf ty value datum →
    describes checker.code value pattern = true → Resolved checker.code pattern →
    Quiet checker pattern → partBindings program here ty pattern = .ok bindings →
    ∃ inner : List (FieldPath × Ident),
      bindings = (inner.map fun binding => (here :: binding.1, binding.2)) ∧
      Reads program leaf checker.code ty value datum pattern
        (bindersOf checker.code pattern) inner
  | .wildcard _, _, _, _, _, _, shows, _, _, _, lowered => by
      rw [partBindings] at lowered
      exact ⟨[], (Except.ok.inj lowered).symm, .none⟩
  | .path segments span, _, _, _, here, _, shows, _, resolved, _, lowered => by
      rw [partBindings] at lowered
      rcases ok_of_bind lowered with ⟨last, end_, rest⟩
      exact ⟨[([], last)], (Except.ok.inj rest).symm,
        reads_name (ok_of_found end_) resolved shows⟩
  | .record path fields span, _, value, _, _, _, shows, whole, resolved, ⟨at_, quiet⟩,
      lowered => by
      rw [partBindings] at lowered
      rcases ok_of_within lowered with ⟨id, arm, rfl, inside, rfl⟩
      rcases ok_of_bind inside with ⟨index, named, further⟩
      rcases ok_of_bind further with ⟨inner, bound, rest⟩
      rw [← Except.ok.inj rest]
      rcases opened_of_record resolved.1 whole shows named with
        ⟨held, data, kept, rfl, opened, parts⟩
      refine ⟨inner, rfl, ?_⟩
      exact recordBindings_reads kept opened fields (fun _ listed => listed) parts resolved.2
        ⟨_, _, quiet⟩ bound
  | .tuple path [element] span, _, value, _, _, _, shows, whole, resolved, ⟨at_, quiet⟩,
      lowered => by
      rw [partBindings] at lowered
      rcases ok_of_within lowered with ⟨id, arm, rfl, inside, rfl⟩
      rcases ok_of_bind inside with ⟨index, named, further⟩
      rcases ok_of_bind further with ⟨bindings, bound, rest⟩
      rw [← Except.ok.inj rest]
      refine ⟨bindings, rfl, ?_⟩
      rcases part_of_tuple resolved.1 whole shows named bound with
        ⟨ok, inner, held, field, part, rfl, rfl, found, declared, shown, describes_, first⟩
      rcases partBindings_reads element shown describes_ resolved.2.1
        ⟨_, (List.append_eq_nil_iff.1 (List.append_eq_nil_iff.1 quiet).2).1⟩ first with
        ⟨within, rfl, reads⟩
      exact reads_of_part found declared reads
  | .tuple path [] span, _, _, _, _, _, _, _, _, ⟨at_, quiet⟩, _ => by
      have single := (List.append_eq_nil_iff.1 (List.append_eq_nil_iff.1 quiet).1).2
      exact absurd single (List.cons_ne_nil _ _)
  | .tuple path (first :: second :: more) span, _, _, _, _, _, _, _, _, ⟨at_, quiet⟩, _ => by
      have single := (List.append_eq_nil_iff.1 (List.append_eq_nil_iff.1 quiet).1).2
      rw [Checker.arity, if_neg (by simp)] at single
      exact absurd single (List.cons_ne_nil _ _)
  | .oneOf alternatives span, _, _, _, _, _, _, _, _, _, lowered => by
      rw [partBindings] at lowered
      rcases ok_of_within lowered with ⟨id, arm, rfl, inside, rfl⟩
      rcases ok_of_bind inside with ⟨variants, -, rest⟩
      rw [← Except.ok.inj rest]
      exact ⟨[], rfl, .none⟩
  | .int _ _, _, _, _, _, _, _, _, _, _, lowered
  | .str _ _, _, _, _, _, _, _, _, _, _, lowered
  | .bool _ _, _, _, _, _, _, _, _, _, _, lowered
  | .error _, _, _, _, _, _, _, _, _, _, lowered => by
      rw [partBindings] at lowered
      rcases ok_of_within lowered with ⟨id, arm, rfl, inside, rfl⟩
      exact absurd inside (by rintro ⟨⟩)

/-- The patterns of the fields of a record read what they name of them. -/
theorem recordBindings_reads {path : List Ident}
    {all : List PatternField} {span place : Ast.Span} {id : LayoutId} {value : Value}
    {held : Fields} {index : Nat} {data : List Datum}
    (kept : Eval.fieldsOf value = some held)
    (opened : Opened program leaf id held index data) :
    ∀ (fields : List PatternField) {bindings : List (FieldPath × Ident)},
    (∀ field ∈ fields, field ∈ all) → describesFields checker.code held fields = true →
    ResolvedFields checker.code fields →
    (∃ declared ty, (checker.bindFields declared ty fields).2 = []) →
    recordBindings program id index place fields = .ok bindings →
    Reads program leaf checker.code (.aggregate id) value (.made index data)
      (.record path all span) (bindersOfFields checker.code fields) bindings
  | [], _, _, _, _, _, lowered => by
      rw [recordBindings] at lowered
      rw [← Except.ok.inj lowered]
      exact .none
  | .mk name (some pattern) written :: more, _, among, whole, resolved, ⟨known, ty, quiet⟩,
      lowered => by
      rw [recordBindings] at lowered
      rcases ok_of_bind lowered with ⟨position, named, lowered⟩
      rcases ok_of_bind lowered with ⟨bound, first, lowered⟩
      rcases ok_of_bind lowered with ⟨later, second, rest⟩
      rw [← Except.ok.inj rest, bindersOfFields]
      have quiet' := List.append_eq_nil_iff.1 quiet
      rw [describesFields, Bool.and_eq_true] at whole
      rw [ResolvedFields] at resolved
      apply Reads.append _ (recordBindings_reads kept opened more
        (fun field listed => among field (List.mem_cons_of_mem _ listed)) whole.2 resolved.2
        ⟨_, _, quiet'.2⟩ second)
      rcases opened with ⟨variant, there, row, parts⟩
      rcases declared_of_found there (ok_of_found named) with ⟨field, declared, called, typed⟩
      rw [typed] at first
      cases found : Assoc.find? held name.name with
      | none =>
          rw [found] at whole
          exact absurd whole.1 Bool.false_ne_true
      | some inner =>
          simp only [found] at whole
          have inside : position < data.length := by
            rw [row]
            exact (List.getElem?_eq_some_iff.1 declared).1
          have shown := parts position field inner data[position] declared
            (by rw [called]; exact found) (List.getElem?_eq_getElem inside)
          rcases partBindings_reads pattern shown whole.1 resolved.1 ⟨_, quiet'.1⟩ first
            with ⟨within, rfl, reads⟩
          exact reads.part there declared (List.getElem?_eq_getElem inside)
            fun definition part names => .field (among _ List.mem_cons_self)
              (by rw [kept]; exact found) names
  | .mk name none written :: more, _, among, whole, resolved, ⟨known, ty, quiet⟩,
      lowered => by
      rw [recordBindings] at lowered
      rcases ok_of_bind lowered with ⟨position, named, lowered⟩
      rcases ok_of_bind lowered with ⟨bound, first, lowered⟩
      rcases ok_of_bind lowered with ⟨later, second, rest⟩
      rw [← Except.ok.inj rest, bindersOfFields]
      have quiet' := List.append_eq_nil_iff.1 quiet
      rw [describesFields, Bool.and_eq_true] at whole
      rw [ResolvedFields] at resolved
      apply Reads.append _ (recordBindings_reads kept opened more
        (fun field listed => among field (List.mem_cons_of_mem _ listed)) whole.2 resolved.2
        ⟨_, _, quiet'.2⟩ second)
      rcases opened with ⟨variant, there, row, parts⟩
      rcases declared_of_found there (ok_of_found named) with ⟨field, declared, called, typed⟩
      rw [← Except.ok.inj first]
      cases found : Assoc.find? held name.name with
      | none =>
          rw [found] at whole
          exact absurd whole.1 Bool.false_ne_true
      | some inner =>
          have inside : position < data.length := by
            rw [row]
            exact (List.getElem?_eq_some_iff.1 declared).1
          have shown := parts position field inner data[position] declared
            (by rw [called]; exact found) (List.getElem?_eq_getElem inside)
          constructor
          · intro path name listed
            rcases Prod.mk.inj (List.mem_singleton.1 listed) with ⟨rfl, rfl⟩
            refine ⟨_, _, .field there declared (List.getElem?_eq_getElem inside) (.here _ _),
              ?_⟩
            intro definition known kind
            exact ⟨inner, .shorthand (among _ List.mem_cons_self) known
              (by rw [kept]; exact found), shown⟩
          · intro definition listed
            exact ⟨_, name, List.mem_singleton.2 rfl, Option.mem_toList.1 listed⟩

end

/-- What is read in the place of a field is read through it. -/
theorem partBindings_through {here : LayoutId × Nat × Nat} {ty : Ty} {pattern : Pattern}
    {bindings : List (FieldPath × Ident)}
    (lowered : partBindings program here ty pattern = .ok bindings) :
    ∀ binding ∈ bindings, binding.1 ≠ [] := by
  have through : ∀ {inner : LayoutId → Except Unlowered Arm} {span : Ast.Span},
      within program here ty span inner = .ok bindings →
      ∀ binding ∈ bindings, binding.1 ≠ [] := by
    intro inner span ran binding listed
    rcases ok_of_within ran with ⟨id, arm, -, -, rfl⟩
    rcases List.mem_map.1 listed with ⟨further, -, rfl⟩
    exact List.cons_ne_nil _ _
  cases pattern with
  | wildcard span =>
      rw [partBindings] at lowered
      rw [← Except.ok.inj lowered]
      exact fun binding listed => absurd listed List.not_mem_nil
  | path segments span =>
      rw [partBindings] at lowered
      rcases ok_of_bind lowered with ⟨last, -, rest⟩
      rw [← Except.ok.inj rest]
      intro binding listed
      rw [List.mem_singleton.1 listed]
      exact List.cons_ne_nil _ _
  | _ =>
      rw [partBindings] at lowered
      exact through lowered

theorem recordBindings_through {id : LayoutId} {variant : Nat} {span : Ast.Span}
    {fields : List PatternField} {bindings : List (FieldPath × Ident)}
    (lowered : recordBindings program id variant span fields = .ok bindings) :
    ∀ binding ∈ bindings, binding.1 ≠ [] := by
  induction fields generalizing bindings with
  | nil =>
      rw [recordBindings] at lowered
      rw [← Except.ok.inj lowered]
      exact fun binding listed => absurd listed List.not_mem_nil
  | cons field fields ih =>
      rcases field with ⟨name, pattern, written⟩
      rw [recordBindings] at lowered
      rcases ok_of_bind lowered with ⟨position, -, lowered⟩
      have parts : ∃ bound later, (∀ binding ∈ bound, binding.1 ≠ []) ∧
          recordBindings program id variant span fields = .ok later ∧
          bound ++ later = bindings := by
        cases pattern with
        | some pattern =>
            rcases ok_of_bind lowered with ⟨bound, first, lowered⟩
            rcases ok_of_bind lowered with ⟨later, second, rest⟩
            exact ⟨bound, later, partBindings_through first, second, Except.ok.inj rest⟩
        | none =>
            rcases ok_of_bind lowered with ⟨bound, first, lowered⟩
            rcases ok_of_bind lowered with ⟨later, second, rest⟩
            refine ⟨bound, later, ?_, second, Except.ok.inj rest⟩
            intro binding listed
            rw [← Except.ok.inj first] at listed
            rw [List.mem_singleton.1 listed]
            exact List.cons_ne_nil _ _
      rcases parts with ⟨bound, later, through, second, rfl⟩
      intro binding listed
      rcases List.mem_append.1 listed with here | there
      · exact through binding here
      · exact ih second binding there

theorem tupleBindings_through {id : LayoutId} {variant position : Nat}
    {elements : List Pattern} {bindings : List (FieldPath × Ident)}
    (lowered : tupleBindings program id variant position elements = .ok bindings) :
    ∀ binding ∈ bindings, binding.1 ≠ [] := by
  induction elements generalizing bindings position with
  | nil =>
      rw [tupleBindings] at lowered
      rw [← Except.ok.inj lowered]
      exact fun binding listed => absurd listed List.not_mem_nil
  | cons element elements ih =>
      rw [tupleBindings] at lowered
      rcases ok_of_bind lowered with ⟨bound, first, lowered⟩
      rcases ok_of_bind lowered with ⟨later, second, rest⟩
      rw [← Except.ok.inj rest]
      intro binding listed
      rcases List.mem_append.1 listed with here | there
      · exact partBindings_through first binding here
      · exact ih second binding there

/-- An arm reads fields of the scrutinee, never the whole of it. -/
theorem armPattern_through {id : LayoutId} {pattern : Pattern} {variants : List Nat}
    {bindings : List (FieldPath × Ident)}
    (lowered : armPattern program id pattern = .ok (variants, bindings)) :
    ∀ binding ∈ bindings, binding.1 ≠ [] := by
  cases pattern with
  | record path fields span =>
      rw [armPattern] at lowered
      rcases ok_of_bind lowered with ⟨at_, -, further⟩
      rcases ok_of_bind further with ⟨bound, inside, rest⟩
      rw [← (Prod.mk.inj (Except.ok.inj rest)).2]
      exact recordBindings_through inside
  | tuple path elements span =>
      rw [armPattern] at lowered
      rcases ok_of_bind lowered with ⟨at_, -, further⟩
      rcases ok_of_bind further with ⟨bound, inside, rest⟩
      rw [← (Prod.mk.inj (Except.ok.inj rest)).2]
      exact tupleBindings_through inside
  | wildcard span =>
      rw [armPattern] at lowered
      rw [← (Prod.mk.inj (Except.ok.inj lowered)).2]
      exact fun binding listed => absurd listed List.not_mem_nil
  | path segments span =>
      rw [armPattern] at lowered
      rcases ok_of_bind lowered with ⟨at_, -, rest⟩
      rw [← (Prod.mk.inj (Except.ok.inj rest)).2]
      exact fun binding listed => absurd listed List.not_mem_nil
  | oneOf alternatives span =>
      rw [armPattern] at lowered
      rcases ok_of_bind lowered with ⟨all, -, rest⟩
      rw [← (Prod.mk.inj (Except.ok.inj rest)).2]
      exact fun binding listed => absurd listed List.not_mem_nil
  | _ =>
      rw [armPattern] at lowered
      exact absurd lowered (by rintro ⟨⟩)

mutual

/-- A lowered pattern lists variants that there are. -/
theorem armPattern_inside : ∀ (pattern : Pattern) {id : LayoutId} {variants : List Nat}
    {bindings : List (FieldPath × Ident)},
    armPattern program id pattern = .ok (variants, bindings) →
    ∀ variant ∈ variants, variant < (program.layout id).variants.length
  | .wildcard _, _, _, _, lowered => by
      rw [armPattern] at lowered
      rw [← (Prod.mk.inj (Except.ok.inj lowered)).1]
      exact fun variant listed => List.mem_range.1 listed
  | .path segments span, _, _, _, lowered => by
      rw [armPattern] at lowered
      rcases ok_of_bind lowered with ⟨at_, named, rest⟩
      rw [← (Prod.mk.inj (Except.ok.inj rest)).1]
      exact inside_of_named named
  | .record path fields span, _, _, _, lowered => by
      rw [armPattern] at lowered
      rcases ok_of_bind lowered with ⟨at_, named, further⟩
      rcases ok_of_bind further with ⟨bound, -, rest⟩
      rw [← (Prod.mk.inj (Except.ok.inj rest)).1]
      exact inside_of_named named
  | .tuple path elements span, _, _, _, lowered => by
      rw [armPattern] at lowered
      rcases ok_of_bind lowered with ⟨at_, named, further⟩
      rcases ok_of_bind further with ⟨bound, -, rest⟩
      rw [← (Prod.mk.inj (Except.ok.inj rest)).1]
      exact inside_of_named named
  | .oneOf alternatives span, _, _, _, lowered => by
      rw [armPattern] at lowered
      rcases ok_of_bind lowered with ⟨all, alternated, rest⟩
      rw [← (Prod.mk.inj (Except.ok.inj rest)).1]
      exact alternativeVariants_inside alternatives alternated
  | .int _ _, _, _, _, lowered
  | .str _ _, _, _, _, lowered
  | .bool _ _, _, _, _, lowered
  | .error _, _, _, _, lowered => by
      rw [armPattern] at lowered
      exact absurd lowered (by rintro ⟨⟩)

theorem alternativeVariants_inside : ∀ (alternatives : List Pattern) {id : LayoutId}
    {variants : List Nat}, alternativeVariants program id alternatives = .ok variants →
    ∀ variant ∈ variants, variant < (program.layout id).variants.length
  | [], _, _, lowered => by
      rw [alternativeVariants] at lowered
      rw [← Except.ok.inj lowered]
      exact fun variant listed => absurd listed List.not_mem_nil
  | alternative :: rest, _, _, lowered => by
      rw [alternativeVariants] at lowered
      rcases ok_of_bind lowered with ⟨⟨variants, bindings⟩, first, further⟩
      rcases ok_of_bind further with ⟨more, second, rest_⟩
      rw [← Except.ok.inj rest_]
      intro variant listed
      rcases List.mem_append.1 listed with here | there
      · exact armPattern_inside alternative first variant here
      · exact alternativeVariants_inside rest second variant there

end

/-- A pattern that is not itself a name. -/
def Headed (code : Code) (pattern : Pattern) : Prop :=
  ∀ segments span, pattern = .path segments span → binderOf code segments = none

mutual

/-- A lowered pattern that describes a value lists the variant that is there. -/
theorem armPattern_lists : ∀ (pattern : Pattern) {id : LayoutId}
    {value : Value} {index : Nat} {data : List Datum} {variants : List Nat}
    {bindings : List (FieldPath × Ident)}, Headed code pattern →
    describes code value pattern = true → Resolved code pattern →
    Shows program leaf (.aggregate id) value (.made index data) →
    armPattern program id pattern = .ok (variants, bindings) → index ∈ variants
  | .wildcard _, id, value, index, _, _, _, _, _, _, shows, lowered => by
      rw [armPattern] at lowered
      rw [← (Prod.mk.inj (Except.ok.inj lowered)).1, List.mem_range]
      cases shows with
      | leaf bare shows => exact absurd rfl (bare id)
      | variant first found row parts => exact (List.getElem?_eq_some_iff.1 found).1
      | record only row parts =>
          rw [variantsOf, only]
          exact Nat.one_pos
      | result first found only shows => exact (List.getElem?_eq_some_iff.1 found).1
  | .path segments span, id, value, index, _, _, _, headed, whole, resolved, shows, lowered => by
      rw [armPattern] at lowered
      rcases ok_of_bind lowered with ⟨at_, named, rest⟩
      rw [← (Prod.mk.inj (Except.ok.inj rest)).1]
      rw [describes, headed segments span rfl, Option.isSome_none, Bool.false_or] at whole
      cases value with
      | variant origin name fields =>
          rcases index_of_head resolved.1 whole shows named with ⟨data, same, -⟩
          rw [(Datum.made.inj same).1]
          exact List.mem_singleton.2 rfl
      | _ =>
          rcases (Option.any_eq_true _ _).1 whole with ⟨variant, -, impossible⟩
          exact absurd impossible Bool.false_ne_true
  | .record path fields span, id, value, index, _, _, _, _, whole, resolved, shows, lowered => by
      rw [armPattern] at lowered
      rcases ok_of_bind lowered with ⟨at_, named, further⟩
      rcases ok_of_bind further with ⟨bound, -, rest⟩
      rw [← (Prod.mk.inj (Except.ok.inj rest)).1]
      rcases opened_of_record resolved.1 whole shows named with ⟨held, data, -, same, -⟩
      rw [(Datum.made.inj same).1]
      exact List.mem_singleton.2 rfl
  | .tuple path elements span, id, value, index, _, _, _, _, whole, resolved, shows, lowered => by
      rw [armPattern] at lowered
      rcases ok_of_bind lowered with ⟨at_, named, further⟩
      rcases ok_of_bind further with ⟨bound, -, rest⟩
      rw [← (Prod.mk.inj (Except.ok.inj rest)).1]
      rcases opened_of_tuple resolved.1 whole shows named with
        ⟨ok, inner, held, field, part, -, same, -⟩
      rw [(Datum.made.inj same).1]
      exact List.mem_singleton.2 rfl
  | .oneOf alternatives span, id, value, index, _, _, _, _, whole, resolved, shows, lowered => by
      rw [armPattern] at lowered
      rcases ok_of_bind lowered with ⟨all, alternated, rest⟩
      rw [← (Prod.mk.inj (Except.ok.inj rest)).1]
      rw [describes] at whole
      rw [Resolved] at resolved
      exact alternativeVariants_lists alternatives resolved.2 whole resolved.1 shows
        alternated
  | .int _ _, _, _, _, _, _, _, _, _, _, _, lowered
  | .str _ _, _, _, _, _, _, _, _, _, _, _, lowered
  | .bool _ _, _, _, _, _, _, _, _, _, _, _, lowered
  | .error _, _, _, _, _, _, _, _, _, _, _, lowered => by
      rw [armPattern] at lowered
      exact absurd lowered (by rintro ⟨⟩)

theorem alternativeVariants_lists : ∀ (alternatives : List Pattern)
    {id : LayoutId} {value : Value} {index : Nat} {data : List Datum} {variants : List Nat},
    bindersOfAll code alternatives = [] → describesAny code value alternatives = true →
    ResolvedAll code alternatives →
    Shows program leaf (.aggregate id) value (.made index data) →
    alternativeVariants program id alternatives = .ok variants → index ∈ variants
  | [], _, _, _, _, _, _, whole, _, _, _ => absurd whole Bool.false_ne_true
  | alternative :: rest, id, value, index, data, _, unbound, whole, resolved, shows, lowered => by
      rw [alternativeVariants] at lowered
      rcases ok_of_bind lowered with ⟨⟨variants, bindings⟩, first, further⟩
      rcases ok_of_bind further with ⟨more, second, rest_⟩
      rw [← Except.ok.inj rest_, List.mem_append]
      rw [Eval.bindersOfAll, List.append_eq_nil_iff] at unbound
      rw [describesAny, Bool.or_eq_true] at whole
      rw [ResolvedAll] at resolved
      rcases whole with here | later
      · refine Or.inl (armPattern_lists alternative ?_ here resolved.1 shows first)
        rintro segments span rfl
        rw [bindersOf] at unbound
        exact Option.toList_eq_nil_iff.1 unbound.1
      · exact Or.inr (alternativeVariants_lists rest unbound.2 later resolved.2 shows
          second)

end

/-- A lowered pattern that describes a value reads what it names of it. -/
theorem armPattern_reads {pattern : Pattern} {id : LayoutId}
    {value : Value} {datum : Datum} {variants : List Nat} {bindings : List (FieldPath × Ident)}
    (headed : Headed checker.code pattern)
    (whole : describes checker.code value pattern = true)
    (resolved : Resolved checker.code pattern) (quiet : Quiet checker pattern)
    (shows : Shows program leaf (.aggregate id) value datum)
    (lowered : armPattern program id pattern = .ok (variants, bindings)) :
    Reads program leaf checker.code (.aggregate id) value datum pattern
      (bindersOf checker.code pattern) bindings := by
  cases pattern with
  | wildcard span =>
      rw [armPattern] at lowered
      rw [← (Prod.mk.inj (Except.ok.inj lowered)).2]
      exact .none
  | path segments span =>
      rw [armPattern] at lowered
      rcases ok_of_bind lowered with ⟨at_, named, rest⟩
      rw [← (Prod.mk.inj (Except.ok.inj rest)).2, bindersOf, headed segments span rfl]
      exact .none
  | record path fields span =>
      rw [armPattern] at lowered
      rcases ok_of_bind lowered with ⟨at_, named, further⟩
      rcases ok_of_bind further with ⟨bound, inside, rest⟩
      rw [← (Prod.mk.inj (Except.ok.inj rest)).2]
      rcases quiet with ⟨ty, quiet⟩
      rcases opened_of_record resolved.1 whole shows named with
        ⟨held, data, kept, rfl, opened, parts⟩
      exact recordBindings_reads kept opened fields (fun _ listed => listed) parts
        resolved.2 ⟨_, _, quiet⟩ inside
  | tuple path elements span =>
      rw [armPattern] at lowered
      rcases ok_of_bind lowered with ⟨at_, named, further⟩
      rcases ok_of_bind further with ⟨bound, inside, rest⟩
      rw [← (Prod.mk.inj (Except.ok.inj rest)).2]
      rcases quiet with ⟨ty, quiet⟩
      have single := (List.append_eq_nil_iff.1 (List.append_eq_nil_iff.1 quiet).1).2
      rcases elements with _ | ⟨element, _ | ⟨second, more⟩⟩
      · exact absurd single (List.cons_ne_nil _ _)
      · rcases part_of_tuple resolved.1 whole shows named inside with
          ⟨ok, inner, held, field, part, rfl, rfl, found, declared, shown, describes_, first⟩
        rcases partBindings_reads element shown describes_ resolved.2.1
          ⟨_, (List.append_eq_nil_iff.1 (List.append_eq_nil_iff.1 quiet).2).1⟩ first with
          ⟨within, rfl, reads⟩
        exact reads_of_part found declared reads
      · rw [Checker.arity, if_neg (by simp)] at single
        exact absurd single (List.cons_ne_nil _ _)
  | oneOf alternatives span =>
      rw [armPattern] at lowered
      rcases ok_of_bind lowered with ⟨all, alternated, rest⟩
      rw [← (Prod.mk.inj (Except.ok.inj rest)).2]
      exact .none
  | _ =>
      rw [armPattern] at lowered
      exact absurd lowered (by rintro ⟨⟩)

end Reads

end Deed.Lowering
