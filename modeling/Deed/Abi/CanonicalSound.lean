import Deed.Abi.Canonical

/-!
# Where the layouts agree

The boundary lays a type out as the component model does exactly where every choice in it has
at least two cases and no discriminant is wider than everything in the cases: the alignment of a
choice leaves its discriminant out, and a choice of one case is laid out as a record.
-/

namespace Deed.Abi

open Deed.Mir (Ty Layout LayoutId Variant Field)
open Deed.Library
open Deed.Library.ComponentModel (ValType Core IsAlignment maxAlignment)

variable {layouts : List Layout} {depth : Nat} {ty : Ty} {id : LayoutId} {layout : Layout}
  {variant : Variant} {field : Field} {fields : List Field} {variants : List Variant}
  {kind : ValType} {kinds : List ValType} {cases : List (List ValType)}

/-! ## Corresponding lists -/

theorem mapM_eq_some_iff {α β : Type} {make : α → Option β} {list : List α} {made : List β} :
    list.mapM make = some made ↔ List.Forall₂ (fun a b => make a = some b) list made := by
  induction list generalizing made with
  | nil =>
      rw [List.mapM_nil, List.forall₂_nil_left_iff]
      exact ⟨fun same => (Option.some.inj same).symm, fun same => congrArg some same.symm⟩
  | cons head rest ih =>
      rw [List.mapM_cons, List.forall₂_cons_left_iff]
      constructor
      · intro ran
        rcases Option.bind_eq_some_iff.mp ran with ⟨first, here, ran⟩
        rcases Option.bind_eq_some_iff.mp ran with ⟨later, there, same⟩
        exact ⟨first, later, here, ih.mp there, (Option.some.inj same).symm⟩
      · rintro ⟨first, later, here, there, rfl⟩
        rw [here, ih.mpr there]
        rfl

/-- Fields and the types that they correspond to. -/
def Fields (layouts : List Layout) (depth : Nat) (fields : List Field) (kinds : List ValType) :
    Prop :=
  List.Forall₂ (fun field kind => kindOf layouts depth field.ty = some kind) fields kinds

theorem casesOf_eq_some_iff : casesOf (kindOf layouts depth) variants = some cases ↔
    List.Forall₂ (fun variant kinds => Fields layouts depth variant.fields kinds) variants cases :=
  by
  unfold casesOf kindsOf Fields
  rw [mapM_eq_some_iff]
  simp only [mapM_eq_some_iff]

/-- A field that agrees with what it corresponds to. -/
structure Alike (layouts : List Layout) (depth : Nat) (field : Field) (kind : ValType) :
    Prop where
  flat : flats layouts depth field.ty = (ComponentModel.flatten kind).map flatType
  align : aligned layouts depth field.ty = ComponentModel.alignment kind
  size : sized layouts depth field.ty = ComponentModel.elemSize kind

theorem Agrees.alike (agrees : Agrees layouts depth field.ty kind) :
    Alike layouts depth field kind := by
  constructor
  · rw [flats, agrees.flat]
    rfl
  · rw [aligned, agrees.align]
    rfl
  · rw [sized, agrees.size]
    rfl

/-! ## Flat types -/

theorem flatType_join (first second : Core) :
    flatType (ComponentModel.join first second) = joinOne (flatType first) (flatType second) := by
  cases first
  · cases second
    · rfl
    · rfl
  · cases second
    · rfl
    · rfl

theorem map_joinInto (flat more : List Core) :
    (ComponentModel.joinInto flat more).map flatType =
      joinFlatLists (flat.map flatType) (more.map flatType) := by
  induction flat generalizing more with
  | nil =>
      cases more with
      | nil => rfl
      | cons second more => rfl
  | cons first flat ih =>
      cases more with
      | nil => rfl
      | cons second more =>
          rw [ComponentModel.joinInto, List.map_cons, List.map_cons, List.map_cons, joinFlatLists,
            flatType_join, ih]

theorem joinInto_nil (more : List Core) : ComponentModel.joinInto [] more = more := by
  cases more with
  | nil => rfl
  | cons second more => rfl

theorem flatMap_flats (alike : List.Forall₂ (Alike layouts depth) fields kinds) :
    (fields.flatMap fun field => flats layouts depth field.ty) =
      (ComponentModel.flattenFields kinds).map flatType := by
  induction alike with
  | nil => rfl
  | cons here _ ih =>
      rw [List.flatMap_cons, ih, here.flat, ComponentModel.flattenFields, List.map_append]

theorem joined_flats
    (alike : List.Forall₂ (fun variant kinds => List.Forall₂ (Alike layouts depth) variant.fields
      kinds) variants cases) (flat : List Core) :
    joined (flats layouts depth) (flat.map flatType) variants =
      (ComponentModel.flattenCases flat (cases.map .record)).map flatType := by
  induction alike generalizing flat with
  | nil => rfl
  | cons here _ ih =>
      rw [List.map_cons, ComponentModel.flattenCases, ComponentModel.flatten, ← ih, map_joinInto,
        ← flatMap_flats here]
      rfl

/-! ## Alignments -/

theorem widest_alike (alike : List.Forall₂ (Alike layouts depth) fields kinds) {a : Nat}
    (pos : 1 ≤ a) : widest (aligned layouts depth) a fields = max a (maxAlignment kinds) := by
  induction alike generalizing a with
  | nil => exact (max_eq_left pos).symm
  | cons here _ ih =>
      show widest _ (max a (aligned layouts depth _)) _ = _
      rw [ih (pos.trans (le_max_left _ _)), here.align, maxAlignment, max_assoc]

theorem overall_alike
    (alike : List.Forall₂ (fun variant kinds => List.Forall₂ (Alike layouts depth) variant.fields
      kinds) variants cases) {a : Nat} (pos : 1 ≤ a) :
    widest (aligned layouts depth) a (variants.flatMap Variant.fields) =
      max a (maxAlignment (cases.map .record)) := by
  induction alike generalizing a with
  | nil => exact (max_eq_left pos).symm
  | cons here _ ih =>
      rw [List.flatMap_cons, widest, List.foldl_append, List.map_cons, maxAlignment,
        ComponentModel.alignment, ← max_assoc, ← widest_alike here pos]
      exact ih (pos.trans (le_widest_start _ _ _))

/-! ## Sizes -/

theorem ended_alike (alike : List.Forall₂ (Alike layouts depth) fields kinds) (offset : Nat) :
    ended (aligned layouts depth) (sized layouts depth) offset fields =
      ComponentModel.recordEnd offset kinds := by
  induction alike generalizing offset with
  | nil => rfl
  | cons here _ ih =>
      rw [ended_cons, ih, here.align, here.size, ComponentModel.recordEnd]
      rfl

theorem alignUp_mono {first second : Nat} (a : Nat) (order : first ≤ second) :
    alignUp first a ≤ alignUp second a :=
  Nat.mul_le_mul_right a (Nat.div_le_div_right (by omega))

theorem alignUp_max (first second a : Nat) :
    alignUp (max first second) a = max (alignUp first a) (alignUp second a) := by
  rcases le_total first second with less | less
  · rw [max_eq_right less, max_eq_right (alignUp_mono a less)]
  · rw [max_eq_left less, max_eq_left (alignUp_mono a less)]

/-- Rounding up first to what divides the alignment makes no difference. -/
theorem alignUp_alignUp {n a b : Nat} (pos : 0 < b) (pos' : 0 < a) (divides : a ∣ b) :
    alignUp (alignUp n a) b = alignUp n b := by
  apply le_antisymm
  · have whole : alignUp n a ≤ alignUp n b := by
      have up : a ∣ alignUp n b := divides.trans (dvd_alignUp n b)
      have more := alignUp_mono a (le_alignUp (n := n) pos)
      rwa [alignUp_of_dvd pos' up] at more
    have more := alignUp_mono b whole
    rwa [alignUp_of_dvd pos (dvd_alignUp n b)] at more
  · exact alignUp_mono b (le_alignUp pos')

/-- The longest case, rounded up, whether or not each case is rounded up before. -/
theorem longest_alike
    (alike : List.Forall₂ (fun variant kinds => List.Forall₂ (Alike layouts depth) variant.fields
      kinds) variants cases) {a : Nat} (power : IsAlignment a)
    (wide : maxAlignment (cases.map .record) ≤ a) (most : Nat) :
    alignUp (longest (aligned layouts depth) (sized layouts depth) most variants) a =
      max (alignUp most a) (alignUp (ComponentModel.maxSize (cases.map .record)) a) := by
  induction alike generalizing most with
  | nil =>
      rw [List.map_nil, ComponentModel.maxSize]
      exact (max_eq_left (alignUp_mono a (Nat.zero_le most))).symm
  | @cons variant kinds variants cases here _ ih =>
      rw [List.map_cons, maxAlignment, ComponentModel.alignment] at wide
      have inner := ComponentModel.isAlignment_max kinds
      have divides := inner.dvd power ((le_max_left _ _).trans wide)
      show alignUp (longest _ _ (max most (ended _ _ 0 variant.fields)) variants) a = _
      rw [ih ((le_max_right _ _).trans wide), List.map_cons, ComponentModel.maxSize, alignUp_max,
        alignUp_max, ComponentModel.elemSize, ended_alike here, max_assoc]
      congr 2
      exact (alignUp_alignUp power.pos inner.pos divides).symm

theorem forall₂_getElem? {α β : Type} {related : α → β → Prop} {list : List α} {other : List β}
    (all : List.Forall₂ related list other) {index : Nat} {a : α} (there : list[index]? = some a) :
    ∃ b, other[index]? = some b ∧ related a b := by
  induction all generalizing index with
  | nil => cases there
  | cons here _ ih =>
      cases index with
      | zero =>
          cases there
          exact ⟨_, rfl, here⟩
      | succ index => exact ih there

theorem forall₂_left {α β : Type} {related : α → β → Prop} {list : List α} {other : List β}
    (all : List.Forall₂ related list other) {a : α} (there : a ∈ list) :
    ∃ b ∈ other, related a b := by
  obtain ⟨index, found⟩ := List.mem_iff_getElem?.mp there
  obtain ⟨b, listed, holds⟩ := forall₂_getElem? all found
  exact ⟨b, List.mem_of_getElem? listed, holds⟩

/-! ## Offsets -/

theorem fieldOffsets_alike (alike : List.Forall₂ (Alike layouts depth) fields kinds)
    (measured : ∀ field ∈ fields, Measured layouts depth field.ty) (offset : Nat) :
    fieldOffsets (alignOf layouts depth) (sizeOf layouts depth) fields offset =
      .ok (ComponentModel.fieldOffsets offset kinds) := by
  induction alike generalizing offset with
  | nil => rfl
  | cons here _ ih =>
      have first := measured _ List.mem_cons_self
      rw [fieldOffsets, first.align, ok_bind, first.size, ok_bind,
        ih fun field listed => measured field (List.mem_cons_of_mem _ listed), ok_bind, here.align,
        here.size, ComponentModel.fieldOffsets]
      rfl

/-- Every field is stored at a multiple of its alignment. -/
theorem aligned_offsets (alike : List.Forall₂ (Alike layouts depth) fields kinds)
    (offset : Nat) : List.Forall₂ (fun field offset => aligned layouts depth field.ty ∣ offset)
      fields (ComponentModel.fieldOffsets offset kinds) := by
  induction alike generalizing offset with
  | nil => exact .nil
  | cons here _ ih =>
      rw [ComponentModel.fieldOffsets]
      refine .cons ?_ (ih _)
      rw [here.align]
      exact ComponentModel.dvd_alignTo _ _

/-! ## Aggregates -/

/-- The distance between the elements of a list is the size of one, which is rounded already. -/
theorem agrees_of (flat : flatten layouts depth ty = .ok ((ComponentModel.flatten kind).map flatType))
    (align : alignOf layouts depth ty = .ok (ComponentModel.alignment kind))
    (size : sizeOf layouts depth ty = .ok (ComponentModel.elemSize kind)) :
    Agrees layouts depth ty kind := by
  refine ⟨flat, align, size, ?_, ComponentModel.alignment_dvd_elemSize kind⟩
  have pos := (ComponentModel.isAlignment kind).pos
  rw [elementStride, size, ok_bind, align, ok_bind, max_eq_left pos,
    alignUp_of_dvd pos (ComponentModel.alignment_dvd_elemSize kind)]

/-- An aggregate with the types that its fields correspond to. -/
structure Known (layouts : List Layout) (depth : Nat) (id : LayoutId) (layout : Layout)
    (cases : List (List ValType)) : Prop where
  laid : LaidOut layouts depth id layout
  alike : List.Forall₂ (fun variant kinds => List.Forall₂ (Alike layouts depth) variant.fields kinds)
    layout.variants cases

namespace Known

variable (known : Known layouts depth id layout cases)

include known

theorem overall_eq : overall layouts depth layout = maxAlignment (cases.map .record) := by
  rw [overall, overall_alike known.alike (le_refl 1)]
  exact max_eq_right (ComponentModel.isAlignment_max _).pos

theorem length_eq : cases.length = layout.variants.length := known.alike.length_eq.symm

theorem record_agrees (only : layout.variants.length = 1) :
    ∃ kinds, cases = [kinds] ∧ Agrees layouts (depth + 1) (.aggregate id) (.record kinds) ∧
      ∀ case_ variant, layout.variants[case_]? = some variant → ∀ pointer,
        variantOffsets (alignOf layouts depth) (sizeOf layouts depth) layout variant pointer =
            .ok (modelOffsets (.record kinds) case_ pointer) ∧
          List.Forall₂ (fun field offset => aligned layouts depth field.ty ∣ offset) variant.fields
            (modelOffsets (.record kinds) case_ pointer) := by
  obtain ⟨kinds, rfl⟩ := List.length_eq_one_iff.mp (known.length_eq.trans only)
  obtain ⟨first, single⟩ := List.length_eq_one_iff.mp only
  have untagged : layout.isTagged = false := by
    rw [Layout.isTagged, only]
    rfl
  have alike : List.Forall₂ (Alike layouts depth) first.fields kinds := by
    have all := known.alike
    rw [single] at all
    exact (List.forall₂_cons.mp all).1
  have widest_ : overall layouts depth layout = ComponentModel.alignment (.record kinds) := by
    rw [known.overall_eq, List.map_singleton, maxAlignment, maxAlignment]
    exact max_eq_left (ComponentModel.isAlignment _).pos
  refine ⟨kinds, rfl, agrees_of ?_ ?_ ?_, ?_⟩
  · rw [known.laid.flat_untagged untagged single, flatMap_flats alike, ComponentModel.flatten]
  · rw [known.laid.align_eq, widest_]
  · rw [known.laid.size_untagged untagged single, ended_alike alike, widest_,
      ComponentModel.elemSize, ComponentModel.alignment]
    rfl
  · intro case_ variant there pointer
    have same : variant = first := by
      rw [single] at there
      exact List.mem_singleton.mp (List.mem_of_getElem? there)
    subst same
    refine ⟨?_, aligned_offsets alike pointer⟩
    rw [variantOffsets, untagged, if_neg Bool.false_ne_true]
    refine fieldOffsets_alike alike (fun field inside => ?_) pointer
    exact known.laid.each variant (by rw [single]; exact List.mem_cons_self) field inside

theorem discriminant_eq :
    discriminantSize layout.variants.length = ComponentModel.discriminantSize cases.length := by
  rw [known.length_eq, ComponentModel.discriminantSize_eq]
  rfl

theorem variant_flat (tagged : layout.isTagged = true) :
    flatten layouts (depth + 1) (.aggregate id) =
      .ok ((ComponentModel.flatten (.variant (cases.map .record))).map flatType) := by
  rw [known.laid.flat_tagged tagged, ComponentModel.flatten, List.map_cons,
    ← joined_flats known.alike []]
  rfl

/-- A choice whose discriminant is narrow enough is laid out as a variant. -/
theorem variant_agrees (tagged : layout.isTagged = true)
    (narrow : ComponentModel.discriminantSize cases.length ≤ maxAlignment (cases.map .record)) :
    Agrees layouts (depth + 1) (.aggregate id) (.variant (cases.map .record)) := by
  have power := ComponentModel.isAlignment_max (cases.map .record)
  apply agrees_of (known.variant_flat tagged)
  · rw [known.laid.align_eq, known.overall_eq, ComponentModel.alignment, List.length_map,
      max_eq_right narrow]
  · have base : maxAlignment (cases.map .record) ∣
        alignUp (ComponentModel.discriminantSize cases.length) (maxAlignment (cases.map .record)) :=
      dvd_alignUp _ _
    rw [known.laid.size_tagged tagged, known.overall_eq, known.discriminant_eq,
      alignUp_add power.pos base, longest_alike known.alike power (le_refl _),
      ComponentModel.elemSize, List.length_map, max_eq_right narrow]
    have zero : alignUp 0 (maxAlignment (cases.map .record)) = 0 :=
      alignUp_of_dvd power.pos (dvd_zero _)
    rw [zero, max_eq_right (Nat.zero_le _), ← alignUp_add power.pos base]
    rfl

theorem variant_offsets (tagged : layout.isTagged = true)
    {case_ : Nat} (there : layout.variants[case_]? = some variant) {pointer : Nat}
    (divides : maxAlignment (cases.map .record) ∣ pointer) :
    variantOffsets (alignOf layouts depth) (sizeOf layouts depth) layout variant pointer =
        .ok (modelOffsets (.variant (cases.map .record)) case_ pointer) ∧
      List.Forall₂ (fun field offset => aligned layouts depth field.ty ∣ offset) variant.fields
        (modelOffsets (.variant (cases.map .record)) case_ pointer) := by
  have power := ComponentModel.isAlignment_max (cases.map .record)
  obtain ⟨kinds, found, alike⟩ := forall₂_getElem? known.alike there
  have stored : (cases.map ValType.record)[case_]? = some (.record kinds) := by
    rw [List.getElem?_map, found]
    rfl
  have payload : ComponentModel.payloadOffset pointer (cases.map .record) =
      pointer + alignUp (ComponentModel.discriminantSize cases.length)
        (maxAlignment (cases.map .record)) := by
    rw [← alignUp_add power.pos divides, ComponentModel.payloadOffset, List.length_map]
    rfl
  have offsets : modelOffsets (.variant (cases.map .record)) case_ pointer =
      ComponentModel.fieldOffsets (ComponentModel.payloadOffset pointer (cases.map .record))
        kinds := by
    rw [modelOffsets, stored]
  rw [offsets]
  refine ⟨?_, aligned_offsets alike _⟩
  rw [variantOffsets, if_pos tagged, known.laid.alignments, ok_bind, known.overall_eq,
    known.discriminant_eq, payload]
  exact fieldOffsets_alike alike
    (fun field inside => known.laid.each variant (List.mem_of_getElem? there) field inside) _

end Known

/-! ## Types -/

/-- A type that corresponds to one of the component model can cross. -/
theorem crosses_of_kind (known : kindOf layouts depth ty = some kind) :
    Crosses layouts depth ty := by
  induction depth generalizing ty kind with
  | zero => cases known
  | succ depth ih =>
      cases ty with
      | unit => exact trivial
      | bool => exact trivial
      | int => exact trivial
      | str => exact trivial
      | closure => cases known
      | capability => cases known
      | list element =>
          obtain ⟨inner, found, -⟩ := Option.map_eq_some_iff.mp known
          exact ih found
      | aggregate id =>
          obtain ⟨layout, found, known⟩ := Option.bind_eq_some_iff.mp known
          obtain ⟨cases, listed, said⟩ := Option.bind_eq_some_iff.mp known
          have alike := casesOf_eq_some_iff.mp listed
          refine ⟨layout, found, ?_, ?_⟩
          · intro none_
            rw [none_] at alike
            rw [List.forall₂_nil_left_iff.mp alike, declared, none_, if_neg (by simp),
              if_pos rfl] at said
            cases said
          · intro variant there field inside
            obtain ⟨kinds, -, fields⟩ := forall₂_left alike there
            obtain ⟨kind, -, known⟩ := forall₂_left fields inside
            exact ih known

/-- What an aggregate corresponds to. -/
theorem kindOf_aggregate (known : kindOf layouts (depth + 1) (.aggregate id) = some kind) :
    ∃ layout cases, layouts[id]? = some layout ∧
      List.Forall₂ (fun variant kinds => Fields layouts depth variant.fields kinds)
        layout.variants cases ∧ declared layout cases = some kind := by
  obtain ⟨layout, found, known⟩ := Option.bind_eq_some_iff.mp known
  obtain ⟨cases, listed, said⟩ := Option.bind_eq_some_iff.mp known
  exact ⟨layout, cases, found, casesOf_eq_some_iff.mp listed, said⟩

theorem Canonical.agrees (canonical : Canonical layouts depth ty)
    (known : kindOf layouts depth ty = some kind) : Agrees layouts depth ty kind := by
  cases depth with
  | zero => exact canonical.elim
  | succ depth =>
      obtain ⟨other, found, agrees, -⟩ := canonical
      rw [found] at known
      cases known
      exact agrees

/-- What makes an aggregate canonical: its fields, its own measures and its offsets. -/
theorem canonical_aggregate (known : kindOf layouts (depth + 1) (.aggregate id) = some kind)
    (found : layouts[id]? = some layout) :
    Canonical layouts (depth + 1) (.aggregate id) ↔
      (∀ variant ∈ layout.variants, ∀ field ∈ variant.fields, Canonical layouts depth field.ty) ∧
        Agrees layouts (depth + 1) (.aggregate id) kind ∧
        ∀ case_ variant, layout.variants[case_]? = some variant →
          ∀ pointer, ComponentModel.alignment kind ∣ pointer →
            variantOffsets (alignOf layouts depth) (sizeOf layouts depth) layout variant pointer =
                .ok (modelOffsets kind case_ pointer) ∧
              List.Forall₂ (fun field offset => aligned layouts depth field.ty ∣ offset)
                variant.fields (modelOffsets kind case_ pointer) := by
  constructor
  · rintro ⟨other, same, agrees, inside⟩
    rw [known] at same
    cases same
    refine ⟨fun variant there => ?_, agrees, fun case_ variant there =>
      (inside layout found case_ variant there).2⟩
    obtain ⟨case_, listed⟩ := List.mem_iff_getElem?.mp there
    exact (inside layout found case_ variant listed).1
  · rintro ⟨children, agrees, offsets⟩
    refine ⟨kind, known, agrees, fun other there case_ variant listed => ?_⟩
    rw [found] at there
    cases there
    exact ⟨children variant (List.mem_of_getElem? listed), offsets case_ variant listed⟩

theorem known_of_children (laid : LaidOut layouts depth id layout)
    (alike : List.Forall₂ (fun variant kinds => Fields layouts depth variant.fields kinds)
      layout.variants cases)
    (children : ∀ variant ∈ layout.variants, ∀ field ∈ variant.fields,
      Canonical layouts depth field.ty) : Known layouts depth id layout cases := by
  refine ⟨laid, ?_⟩
  clear laid
  generalize layout.variants = variants at alike children
  induction alike with
  | nil => exact .nil
  | @cons variant kinds variants cases here _ ih =>
      refine .cons ?_ (ih fun variant there => children variant (List.mem_cons_of_mem _ there))
      have inside := children variant List.mem_cons_self
      clear ih children
      generalize variant.fields = fields at here inside
      induction here with
      | nil => exact .nil
      | cons first _ ih =>
          exact .cons ((inside _ List.mem_cons_self).agrees first).alike
            (ih fun field there => inside field (List.mem_cons_of_mem _ there))

theorem narrow_record : Narrow (.record kinds) ↔ ∀ inner ∈ kinds, Narrow inner := by
  rw [Narrow]

theorem narrow_variant : Narrow (.variant (cases.map .record)) ↔
    2 ≤ cases.length ∧
      ComponentModel.discriminantSize cases.length ≤ maxAlignment (cases.map .record) ∧
        ∀ kinds ∈ cases, ∀ inner ∈ kinds, Narrow inner := by
  rw [Narrow, List.length_map]
  simp only [List.forall_mem_map, narrow_record]

namespace Known

variable (known : Known layouts depth id layout cases)

include known

theorem isTagged (several : 2 ≤ cases.length) : layout.isTagged = true := by
  rw [Layout.isTagged, ← known.length_eq]
  exact decide_eq_true several

/-- A choice of one case is not laid out as a variant. -/
theorem several_of_agrees (some_ : cases ≠ [])
    (agrees : Agrees layouts (depth + 1) (.aggregate id) (.variant (cases.map .record))) :
    2 ≤ cases.length := by
  by_contra few
  have pos := List.length_pos_iff.mpr some_
  obtain ⟨kinds, rfl, record, -⟩ := known.record_agrees (by rw [← known.length_eq]; omega)
  have same := record.flat.symm.trans agrees.flat
  have lengths := congrArg List.length (Except.ok.inj same)
  rw [List.length_map, List.length_map, ComponentModel.flatten, ComponentModel.flatten,
    List.map_singleton, ComponentModel.flattenCases, ComponentModel.flattenCases,
    List.length_cons, ComponentModel.flatten, joinInto_nil] at lengths
  omega

/-- The alignment of a choice leaves its discriminant out. -/
theorem narrow_of_agrees
    (agrees : Agrees layouts (depth + 1) (.aggregate id) (.variant (cases.map .record))) :
    ComponentModel.discriminantSize cases.length ≤ maxAlignment (cases.map .record) := by
  have same := Except.ok.inj (known.laid.align_eq.symm.trans agrees.align)
  rw [known.overall_eq, ComponentModel.alignment, List.length_map] at same
  rw [same]
  exact le_max_left _ _

end Known

/-- The boundary lays a type out as the component model does, with everything in it, exactly
where every choice in it has two cases or more and a discriminant that is not too wide. -/
theorem canonical_iff (known : kindOf layouts depth ty = some kind) :
    Canonical layouts depth ty ↔ Narrow kind := by
  induction depth generalizing ty kind with
  | zero => cases known
  | succ depth ih =>
      have crosses := crosses_of_kind known
      cases ty with
      | unit =>
          cases known
          refine iff_of_true ⟨_, rfl, agrees_of rfl rfl rfl, trivial⟩ (narrow_record.mpr ?_)
          exact fun field there => absurd there List.not_mem_nil
      | bool =>
          cases known
          exact iff_of_true ⟨_, rfl, agrees_of rfl rfl rfl, trivial⟩ (by simp [Narrow])
      | int =>
          cases known
          exact iff_of_true ⟨_, rfl, agrees_of rfl rfl rfl, trivial⟩ (by simp [Narrow])
      | str =>
          cases known
          exact iff_of_true ⟨_, rfl, agrees_of rfl rfl rfl, trivial⟩ (by simp [Narrow])
      | closure => cases known
      | capability => cases known
      | list element =>
          obtain ⟨inner, found, rfl⟩ := Option.map_eq_some_iff.mp known
          have flat := (crosses_of_kind found).measured.flat
          rw [Narrow, ← ih found]
          constructor
          · rintro ⟨_, _, _, inside⟩
            exact inside
          · intro inside
            refine ⟨_, known, agrees_of ?_ ?_ ?_, inside⟩
            · rw [flatten, flat, ok_bind]
              rfl
            · rw [alignOf, flat, ok_bind]
              rfl
            · rw [sizeOf, flat, ok_bind]
              rfl
      | aggregate id =>
          obtain ⟨layout, cases, found, alike, said⟩ := kindOf_aggregate known
          obtain ⟨layout', found', some_, each⟩ := crosses
          rw [found] at found'
          cases found'
          have laid : LaidOut layouts depth id layout :=
            ⟨found, some_, fun variant listed field inside =>
              (each variant listed field inside).measured⟩
          have children : (∀ variant ∈ layout.variants, ∀ field ∈ variant.fields,
              Canonical layouts depth field.ty) ↔
                ∀ kinds ∈ cases, ∀ inner ∈ kinds, Narrow inner := by
            constructor
            · intro all kinds listed inner there
              obtain ⟨variant, member, fields⟩ := forall₂_left (List.Forall₂.flip alike) listed
              obtain ⟨field, inside, known⟩ := forall₂_left (List.Forall₂.flip fields) there
              exact (ih known).mp (all variant member field inside)
            · intro all variant member field inside
              obtain ⟨kinds, listed, fields⟩ := forall₂_left alike member
              obtain ⟨inner, there, known⟩ := forall₂_left fields inside
              exact (ih known).mpr (all kinds listed inner there)
          rw [canonical_aggregate known found, children]
          rw [declared] at said
          split at said
          · next record =>
              obtain ⟨kinds, rfl⟩ := List.length_eq_one_iff.mp (alike.length_eq.symm.trans record.2)
              cases said
              rw [narrow_record]
              constructor
              · rintro ⟨all, -, -⟩
                exact all kinds List.mem_cons_self
              · intro narrow
                have all : ∀ others ∈ [kinds], ∀ inner ∈ others, Narrow inner := fun others there =>
                  List.mem_singleton.mp there ▸ narrow
                obtain ⟨same, only, agrees, offsets⟩ :=
                  (known_of_children laid alike (children.mpr all)).record_agrees record.2
                cases only
                exact ⟨all, agrees, fun case_ variant there pointer _ =>
                  offsets case_ variant there pointer⟩
          · split at said
            · cases said
            · next choice =>
                cases said
                rw [narrow_variant]
                constructor
                · rintro ⟨all, agrees, -⟩
                  have whole := known_of_children laid alike (children.mpr all)
                  exact ⟨whole.several_of_agrees choice agrees, whole.narrow_of_agrees agrees, all⟩
                · rintro ⟨several, narrow, all⟩
                  have whole := known_of_children laid alike (children.mpr all)
                  have tagged := whole.isTagged several
                  refine ⟨all, whole.variant_agrees tagged narrow, fun case_ variant there pointer
                    divides => whole.variant_offsets tagged there ?_⟩
                  rw [ComponentModel.alignment, List.length_map, max_eq_right narrow] at divides
                  exact divides

/-- A choice between nothing and a number. -/
def maybe : Layout := ⟨"Maybe", [⟨"none", []⟩, ⟨"some", [⟨"value", .int⟩]⟩], true⟩

theorem canonical_maybe : Canonical [maybe] 2 (.aggregate 0) ↔
    Narrow (.variant [.record [], .record [.s64]]) := by
  have known : kindOf [maybe] 2 (.aggregate 0) =
      some (.variant [.record [], .record [.s64]]) := rfl
  exact canonical_iff known

/-- A choice of many cases with nothing in them, and one of a single case. -/
def flags (count : Nat) : Layout := ⟨"Flags", List.replicate count ⟨"flag", []⟩, true⟩

def solo : Layout := ⟨"Solo", [⟨"Only", [⟨"value", .int⟩]⟩], true⟩

theorem flags_fields (layouts : List Layout) (depth count : Nat) :
    List.Forall₂ (fun variant kinds => Fields layouts depth variant.fields kinds)
      (flags count).variants (List.replicate count []) := by
  show List.Forall₂ _ (List.replicate count _) _
  induction count with
  | zero => exact .nil
  | succ count ih => exact .cons .nil ih

/-- A choice of empty cases is aligned to one byte, whatever its discriminant needs. -/
theorem maxAlignment_replicate (count : Nat) :
    maxAlignment ((List.replicate count []).map .record) = 1 := by
  induction count with
  | zero => rfl
  | succ count ih =>
      rw [List.replicate_succ, List.map_cons, maxAlignment, ih]
      rfl

theorem kindOf_flags (count : Nat) :
    kindOf [flags (count + 1)] 2 (.aggregate 0) =
      some (.variant ((List.replicate (count + 1) []).map .record)) := by
  show (casesOf (kindOf [flags (count + 1)] 1) (flags (count + 1)).variants).bind _ = _
  rw [casesOf_eq_some_iff.mpr (flags_fields _ 1 _), Option.bind_some, declared,
    if_neg (fun record => nomatch record.1), if_neg (by simp)]

theorem flags_not_canonical (count : Nat)
    (wide : 1 < ComponentModel.discriminantSize (count + 1)) :
    ¬Canonical [flags (count + 1)] 2 (.aggregate 0) := by
  intro canonical
  have agrees := canonical.agrees (kindOf_flags count)
  have none_ : ∀ variant ∈ (flags (count + 1)).variants, variant.fields = [] := by
    intro variant there
    rw [List.eq_of_mem_replicate there]
  have laid : LaidOut [flags (count + 1)] 1 0 (flags (count + 1)) := by
    refine ⟨rfl, by simp [flags], fun variant there field inside => ?_⟩
    rw [none_ variant there] at inside
    exact absurd inside List.not_mem_nil
  have known := known_of_children laid (flags_fields _ 1 _) fun variant there field inside => by
    rw [none_ variant there] at inside
    exact absurd inside List.not_mem_nil
  have narrow := known.narrow_of_agrees agrees
  rw [maxAlignment_replicate, List.length_replicate] at narrow
  omega

theorem solo_not_canonical : ¬Canonical [solo] 2 (.aggregate 0) := by
  rintro ⟨kind, known, agrees, -⟩
  cases known
  cases agrees.flat

/-- The discriminant of 257 cases has two bytes, and the choice is not aligned to two, and a
choice of one case has no discriminant. -/
theorem not_canonical :
    ((kindOf [flags 257] 2 (.aggregate 0)).isSome ∧ ¬Canonical [flags 257] 2 (.aggregate 0)) ∧
      (kindOf [solo] 2 (.aggregate 0)).isSome ∧ ¬Canonical [solo] 2 (.aggregate 0) := by
  refine ⟨⟨?_, flags_not_canonical 256 (by decide)⟩, rfl, solo_not_canonical⟩
  rw [kindOf_flags 256]
  rfl

end Deed.Abi
