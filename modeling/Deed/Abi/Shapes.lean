import Deed.Abi.Lower

/-!
# The shape of a type

What the boundary says of a type that can cross: its flat types, its size and its alignment
are answered, and the fields of an aggregate lie inside it, each at its own alignment.
-/

namespace Deed.Abi

open Deed.Mir (Ty Layout LayoutId Variant Field)

variable {layouts : List Layout} {depth : Nat} {ty : Ty} {id : LayoutId} {layout : Layout}
  {variant : Variant} {field : Field} {fields : List Field} {variants : List Variant}

/-- A type that can cross, followed through the layouts to a depth: no closures and no
capabilities in it, and a variant at least in each layout. -/
def Crosses (layouts : List Layout) : Nat → Ty → Prop
  | 0, _ => False
  | depth + 1, ty =>
      match ty with
      | .list element => Crosses layouts depth element
      | .aggregate id => ∃ layout, layouts[id]? = some layout ∧ layout.variants ≠ [] ∧
          ∀ variant ∈ layout.variants, ∀ field ∈ variant.fields,
            Crosses layouts depth field.ty
      | .closure => False
      | .capability => False
      | _ => True

/-! ## Multiples -/

theorem le_alignUp {n a : Nat} (pos : 0 < a) : n ≤ alignUp n a := by
  have division := Nat.div_add_mod (n + a - 1) a
  have small := Nat.mod_lt (n + a - 1) pos
  rw [alignUp, Nat.mul_comm]
  omega

theorem dvd_alignUp (n a : Nat) : a ∣ alignUp n a := Dvd.intro_left _ rfl

theorem alignUp_add {base n a : Nat} (pos : 0 < a) (divides : a ∣ base) :
    alignUp (base + n) a = base + alignUp n a := by
  obtain ⟨times, rfl⟩ := divides
  have moved : a * times + n + a - 1 = n + a - 1 + a * times := by omega
  rw [alignUp, alignUp, moved, Nat.add_mul_div_left _ _ pos, Nat.add_mul, Nat.mul_comm a times,
    Nat.add_comm]

theorem alignUp_of_dvd {n a : Nat} (pos : 0 < a) (divides : a ∣ n) : alignUp n a = n := by
  have whole := alignUp_add (n := 0) pos divides
  have zero : alignUp 0 a = 0 := by
    rw [alignUp, Nat.div_eq_of_lt (by omega), Nat.zero_mul]
  rw [zero] at whole
  exact whole

/-! ## What the recursions answer -/

section Recursions

variable {each : Ty → Answer (List FlatType)} {alignments sizes : Ty → Answer Nat}
  {types : Ty → List FlatType} {align size : Ty → Nat}

theorem flattenFields_eq (found : ∀ field ∈ fields, each field.ty = .ok (types field.ty)) :
    flattenFields each fields = .ok (fields.flatMap fun field => types field.ty) := by
  induction fields with
  | nil => rfl
  | cons field fields ih =>
      rw [flattenFields, found field List.mem_cons_self, ok_bind,
        ih fun field listed => found field (List.mem_cons_of_mem _ listed), ok_bind]
      rfl

/-- The flat types of the variants, joined. -/
def joined (types : Ty → List FlatType) (payload : List FlatType) (variants : List Variant) :
    List FlatType :=
  variants.foldl (fun payload variant => joinFlatLists payload
    (variant.fields.flatMap fun field => types field.ty)) payload

theorem flattenVariants_eq {payload : List FlatType}
    (found : ∀ variant ∈ variants, ∀ field ∈ variant.fields,
      each field.ty = .ok (types field.ty)) :
    flattenVariants each payload variants = .ok (joined types payload variants) := by
  induction variants generalizing payload with
  | nil => rfl
  | cons variant variants ih =>
      rw [flattenVariants, flattenFields_eq (found variant List.mem_cons_self), ok_bind,
        ih fun variant listed => found variant (List.mem_cons_of_mem _ listed)]
      rfl

/-- The widest alignment of some fields, and `a`. -/
def widest (align : Ty → Nat) (a : Nat) (fields : List Field) : Nat :=
  fields.foldl (fun a field => max a (align field.ty)) a

theorem maxFieldAlign_eq {a : Nat}
    (found : ∀ field ∈ fields, alignments field.ty = .ok (align field.ty)) :
    maxFieldAlign alignments a fields = .ok (widest align a fields) := by
  induction fields generalizing a with
  | nil => rfl
  | cons field fields ih =>
      rw [maxFieldAlign, found field List.mem_cons_self, ok_bind,
        ih fun field listed => found field (List.mem_cons_of_mem _ listed)]
      rfl

theorem maxVariantAlign_eq {a : Nat}
    (found : ∀ variant ∈ variants, ∀ field ∈ variant.fields,
      alignments field.ty = .ok (align field.ty)) :
    maxVariantAlign alignments a variants =
      .ok (widest align a (variants.flatMap Variant.fields)) := by
  induction variants generalizing a with
  | nil => rfl
  | cons variant variants ih =>
      rw [maxVariantAlign, maxFieldAlign_eq (found variant List.mem_cons_self), ok_bind,
        ih fun variant listed => found variant (List.mem_cons_of_mem _ listed),
        List.flatMap_cons, widest, widest, widest, List.foldl_append]

/-- Where some fields end that start at an offset. -/
def ended (align size : Ty → Nat) (offset : Nat) (fields : List Field) : Nat :=
  fields.foldl (fun offset field => alignUp offset (align field.ty) + size field.ty) offset

theorem ended_cons {offset : Nat} : ended align size offset (field :: fields) =
    ended align size (alignUp offset (align field.ty) + size field.ty) fields := rfl

theorem advance_eq {offset : Nat}
    (found : ∀ field ∈ fields, alignments field.ty = .ok (align field.ty) ∧
      sizes field.ty = .ok (size field.ty)) :
    advance alignments sizes offset fields = .ok (ended align size offset fields) := by
  induction fields generalizing offset with
  | nil => rfl
  | cons field fields ih =>
      have here := found field List.mem_cons_self
      rw [advance, here.1, ok_bind, here.2, ok_bind,
        ih fun field listed => found field (List.mem_cons_of_mem _ listed)]
      rfl

/-- The longest of some variants, and `most`. -/
def longest (align size : Ty → Nat) (most : Nat) (variants : List Variant) : Nat :=
  variants.foldl (fun most variant => max most (ended align size 0 variant.fields)) most

theorem maxVariantPayloadSize_eq {most : Nat}
    (found : ∀ variant ∈ variants, ∀ field ∈ variant.fields,
      alignments field.ty = .ok (align field.ty) ∧ sizes field.ty = .ok (size field.ty)) :
    maxVariantPayloadSize alignments sizes most variants =
      .ok (longest align size most variants) := by
  induction variants generalizing most with
  | nil => rfl
  | cons variant variants ih =>
      rw [maxVariantPayloadSize, advance_eq (found variant List.mem_cons_self), ok_bind,
        ih fun variant listed => found variant (List.mem_cons_of_mem _ listed)]
      rfl

theorem le_longest {most : Nat} (listed : variant ∈ variants) :
    ended align size 0 variant.fields ≤ longest align size most variants := by
  have base : ∀ (variants : List Variant) (most : Nat),
      most ≤ longest align size most variants := by
    intro variants
    induction variants with
    | nil => exact fun most => Nat.le_refl most
    | cons variant variants ih => exact fun most => (Nat.le_max_left _ _).trans (ih _)
  induction variants generalizing most with
  | nil => exact absurd listed List.not_mem_nil
  | cons first variants ih =>
      rcases List.mem_cons.mp listed with rfl | later
      · exact (Nat.le_max_right _ _).trans (base variants _)
      · exact ih later

theorem le_widest_start (align : Ty → Nat) (a : Nat) (fields : List Field) :
    a ≤ widest align a fields := by
  induction fields generalizing a with
  | nil => exact Nat.le_refl a
  | cons field fields ih => exact (Nat.le_max_left _ _).trans (ih _)

theorem le_widest {a : Nat} (listed : field ∈ fields) :
    align field.ty ≤ widest align a fields := by
  induction fields generalizing a with
  | nil => exact absurd listed List.not_mem_nil
  | cons first fields ih =>
      rcases List.mem_cons.mp listed with rfl | later
      · exact (Nat.le_max_right _ _).trans (le_widest_start align _ fields)
      · exact ih later

/-- The alignments there are. -/
def Alignment (a : Nat) : Prop := a = 1 ∨ a = 4 ∨ a = 8

theorem Alignment.pos {a : Nat} (alignment : Alignment a) : 0 < a := by
  rcases alignment with rfl | rfl | rfl <;> decide

/-- A smaller alignment divides a greater one. -/
theorem Alignment.dvd {a b : Nat} (alignment : Alignment a) (alignment' : Alignment b)
    (less : a ≤ b) : a ∣ b := by
  rcases alignment with rfl | rfl | rfl <;> rcases alignment' with rfl | rfl | rfl <;> omega

theorem widest_alignment {a : Nat} (start : Alignment a)
    (each : ∀ field ∈ fields, Alignment (align field.ty)) :
    Alignment (widest align a fields) := by
  induction fields generalizing a with
  | nil => exact start
  | cons field fields ih =>
      apply ih
      · show Alignment (max a (align field.ty))
        rcases Nat.le_total a (align field.ty) with less | less
        · rw [max_eq_right less]
          exact each field List.mem_cons_self
        · rw [max_eq_left less]
          exact start
      · exact fun field listed => each field (List.mem_cons_of_mem _ listed)

/-- Fields lie from a multiple of their alignments as they lie from zero. -/
theorem ended_add {base offset : Nat}
    (each : ∀ field ∈ fields, 0 < align field.ty ∧ align field.ty ∣ base) :
    ended align size (base + offset) fields = base + ended align size offset fields := by
  induction fields generalizing offset with
  | nil => rfl
  | cons field fields ih =>
      have here := each field List.mem_cons_self
      rw [ended_cons, ended_cons, alignUp_add here.1 here.2, Nat.add_assoc]
      exact ih fun field listed => each field (List.mem_cons_of_mem _ listed)

theorem le_ended {offset : Nat} (each : ∀ field ∈ fields, 0 < align field.ty) :
    offset ≤ ended align size offset fields := by
  induction fields generalizing offset with
  | nil => exact Nat.le_refl offset
  | cons field fields ih =>
      rw [ended_cons]
      have up : offset ≤ alignUp offset (align field.ty) :=
        le_alignUp (each field List.mem_cons_self)
      have rest : alignUp offset (align field.ty) + size field.ty ≤ _ :=
        ih fun field listed => each field (List.mem_cons_of_mem _ listed)
      omega

end Recursions

/-! ## What a type measures -/

/-- The flat types of a type that crosses. -/
def flats (layouts : List Layout) (depth : Nat) (ty : Ty) : List FlatType :=
  (flatten layouts depth ty).toOption.getD []

/-- The alignment of a type that crosses. -/
def aligned (layouts : List Layout) (depth : Nat) (ty : Ty) : Nat :=
  (alignOf layouts depth ty).toOption.getD 1

/-- The size of a type that crosses. -/
def sized (layouts : List Layout) (depth : Nat) (ty : Ty) : Nat :=
  (sizeOf layouts depth ty).toOption.getD 0

/-- The boundary answers what it is asked about a type. -/
structure Measured (layouts : List Layout) (depth : Nat) (ty : Ty) : Prop where
  flat : flatten layouts depth ty = .ok (flats layouts depth ty)
  align : alignOf layouts depth ty = .ok (aligned layouts depth ty)
  size : sizeOf layouts depth ty = .ok (sized layouts depth ty)
  alignment : Alignment (aligned layouts depth ty)

theorem measured_of {types : List FlatType} {a s : Nat}
    (flat : flatten layouts depth ty = .ok types) (align : alignOf layouts depth ty = .ok a)
    (size : sizeOf layouts depth ty = .ok s) (alignment : Alignment a) :
    Measured layouts depth ty := by
  have same : aligned layouts depth ty = a := by rw [aligned, align]; rfl
  constructor
  · rw [flats, flat]
    rfl
  · rw [same]
    exact align
  · rw [sized, size]
    rfl
  · rw [same]
    exact alignment

/-- The layout of an aggregate that crosses: every field is measured one level down. -/
structure LaidOut (layouts : List Layout) (depth : Nat) (id : LayoutId) (layout : Layout) :
    Prop where
  found : layouts[id]? = some layout
  some_ : layout.variants ≠ []
  each : ∀ variant ∈ layout.variants, ∀ field ∈ variant.fields,
    Measured layouts depth field.ty

/-- The alignment of an aggregate is the widest of its fields. -/
def overall (layouts : List Layout) (depth : Nat) (layout : Layout) : Nat :=
  widest (aligned layouts depth) 1 (layout.variants.flatMap Variant.fields)

namespace LaidOut

variable (laid : LaidOut layouts depth id layout)

include laid

theorem layoutAt_eq : layoutAt layouts id = .ok layout := by
  rw [layoutAt, laid.found]
  rfl

theorem alignments : maxVariantAlign (alignOf layouts depth) 1 layout.variants =
    .ok (overall layouts depth layout) :=
  maxVariantAlign_eq fun variant listed field among => (laid.each variant listed field among).align

theorem measures : ∀ variant ∈ layout.variants, ∀ field ∈ variant.fields,
    alignOf layouts depth field.ty = .ok (aligned layouts depth field.ty) ∧
      sizeOf layouts depth field.ty = .ok (sized layouts depth field.ty) :=
  fun variant listed field among =>
    ⟨(laid.each variant listed field among).align, (laid.each variant listed field among).size⟩

theorem among {field : Field} (listed : field ∈ layout.variants.flatMap Variant.fields) :
    Measured layouts depth field.ty := by
  obtain ⟨variant, member, inside⟩ := List.mem_flatMap.mp listed
  exact laid.each variant member field inside

theorem alignment : Alignment (overall layouts depth layout) :=
  widest_alignment (.inl rfl) fun _ listed => (laid.among listed).alignment

/-- The alignment of a field divides that of the aggregate. -/
theorem divides (listed : variant ∈ layout.variants) (inside : field ∈ variant.fields) :
    aligned layouts depth field.ty ∣ overall layouts depth layout :=
  (laid.each variant listed field inside).alignment.dvd laid.alignment
    (le_widest (List.mem_flatMap.mpr ⟨variant, listed, inside⟩))

theorem variantAt_zero (untagged : layout.isTagged = false) :
    ∃ variant, layout.variants = [variant] ∧ variantAt layout 0 = .ok variant := by
  have some_ := laid.some_
  rw [Layout.isTagged, decide_eq_false_iff_not] at untagged
  cases variants : layout.variants with
  | nil => exact absurd variants some_
  | cons variant rest =>
      rw [variants, List.length_cons] at untagged
      have none_ : rest = [] := List.length_eq_zero_iff.mp (by omega)
      subst none_
      refine ⟨variant, rfl, ?_⟩
      rw [variantAt, variants]
      rfl

theorem align_eq : alignOf layouts (depth + 1) (.aggregate id) =
    .ok (overall layouts depth layout) := by
  rw [alignOf, laid.layoutAt_eq, ok_bind, laid.alignments]

theorem flat_tagged (tagged : layout.isTagged = true) :
    flatten layouts (depth + 1) (.aggregate id) =
      .ok (.i32 :: joined (flats layouts depth) [] layout.variants) := by
  rw [flatten, flattenAggregate, laid.layoutAt_eq, ok_bind, if_pos tagged,
    flattenVariants_eq fun variant listed field inside =>
      (laid.each variant listed field inside).flat, ok_bind]

theorem flat_untagged (untagged : layout.isTagged = false)
    (only : layout.variants = [variant]) :
    flatten layouts (depth + 1) (.aggregate id) =
      .ok (variant.fields.flatMap fun field => flats layouts depth field.ty) := by
  have first : variantAt layout 0 = .ok variant := by
    rw [variantAt, only]
    rfl
  rw [flatten, flattenAggregate, laid.layoutAt_eq, ok_bind, untagged, if_neg Bool.false_ne_true,
    first, ok_bind]
  have listed : variant ∈ layout.variants := by
    rw [only]
    exact List.mem_cons_self
  exact flattenFields_eq fun field inside => (laid.each variant listed field inside).flat

/-- The fields of a record fit its size. -/
theorem size_untagged (untagged : layout.isTagged = false)
    (only : layout.variants = [variant]) :
    sizeOf layouts (depth + 1) (.aggregate id) =
      .ok (alignUp (ended (aligned layouts depth) (sized layouts depth) 0 variant.fields)
        (overall layouts depth layout)) := by
  have first : variantAt layout 0 = .ok variant := by
    rw [variantAt, only]
    rfl
  have listed : variant ∈ layout.variants := by
    rw [only]
    exact List.mem_cons_self
  rw [sizeOf, sizeAggregate, laid.layoutAt_eq, ok_bind, laid.alignments, ok_bind, untagged,
    if_neg Bool.false_ne_true, first, ok_bind, advance_eq (laid.measures variant listed), ok_bind]

theorem size_tagged (tagged : layout.isTagged = true) :
    sizeOf layouts (depth + 1) (.aggregate id) =
      .ok (alignUp (alignUp (discriminantSize layout.variants.length)
        (overall layouts depth layout) +
          longest (aligned layouts depth) (sized layouts depth) 0 layout.variants)
        (overall layouts depth layout)) := by
  rw [sizeOf, sizeAggregate, laid.layoutAt_eq, ok_bind, laid.alignments, ok_bind, if_pos tagged,
    maxVariantPayloadSize_eq laid.measures, ok_bind]

theorem measured : Measured layouts (depth + 1) (.aggregate id) := by
  cases tagged : layout.isTagged with
  | true =>
      exact measured_of (laid.flat_tagged tagged) laid.align_eq (laid.size_tagged tagged)
        laid.alignment
  | false =>
      obtain ⟨variant, only, -⟩ := laid.variantAt_zero tagged
      exact measured_of (laid.flat_untagged tagged only) laid.align_eq
        (laid.size_untagged tagged only) laid.alignment

end LaidOut

/-- Whatever crosses is measured. -/
theorem Crosses.measured (crosses : Crosses layouts depth ty) : Measured layouts depth ty := by
  induction depth generalizing ty with
  | zero => exact crosses.elim
  | succ depth ih =>
      cases ty with
      | list element =>
          have inner := (ih crosses).flat
          apply measured_of _ _ _ (.inr (.inl rfl))
          · exact [.i32, .i32]
          · exact 8
          · rw [flatten, inner, ok_bind]
          · rw [alignOf, inner, ok_bind]
          · rw [sizeOf, inner, ok_bind]
      | aggregate id =>
          obtain ⟨layout, found, some_, each⟩ := crosses
          have laid : LaidOut layouts depth id layout :=
            ⟨found, some_, fun variant listed field inside =>
              ih (each variant listed field inside)⟩
          exact laid.measured
      | closure => exact crosses.elim
      | capability => exact crosses.elim
      | unit => exact measured_of rfl rfl rfl (.inl rfl)
      | bool => exact measured_of rfl rfl rfl (.inl rfl)
      | int => exact measured_of rfl rfl rfl (.inr (.inr rfl))
      | str => exact measured_of rfl rfl rfl (.inr (.inl rfl))

end Deed.Abi
