import Deed.Abi.Lifting

/-!
# Lifting ends

Where the layouts end, the arguments are all there and the lists fit, both `flatten` and `lift`
answer or refuse.  The readers out of memory need only that the lists fit: a value that they
are asked for lies below the end of the address space, and so does each of its parts.
-/

namespace Deed.Abi.Machine

open Deed.Mir (Ty Layout LayoutId Variant Field)

variable {α β : Type} {layouts : List Layout} {depth room : Nat} {ty element : Ty}
  {id : LayoutId} {layout : Layout} {variants : List Variant} {fields : List Field}
  {memory : Memory} {offset : Nat} {flat : List FlatArg}

/-! ## Answers that settle -/

theorem Settles.ok (value : α) : Settles (.ok value : Answer α) := by
  constructor <;> intro same <;> cases same

theorem Settles.refuses (error : Error) : Settles (.error (.error error) : Answer α) := by
  constructor <;> intro same <;> cases same

theorem Settles.bind {answer : Answer α} {next : α → Answer β} (settles : Settles answer)
    (rest : ∀ value, answer = .ok value → Settles (next value)) :
    Settles (answer >>= next) := by
  cases answer with
  | ok value => exact rest value rfl
  | error stop =>
      cases stop with
      | error error => exact .refuses error
      | panics => exact absurd rfl settles.1
      | deeper => exact absurd rfl settles.2

/-- What a sequence answers, its first part answered too. -/
theorem ok_first {answer : Answer α} {next : α → Answer β} {b : β}
    (done : answer >>= next = .ok b) : ∃ a, answer = .ok a ∧ next a = .ok b := by
  cases answer with
  | ok a => exact ⟨a, rfl, done⟩
  | error stop => cases done

theorem plus_eq {a b : Nat} (less : a + b < 2 ^ 64) : plus a b = .ok (a + b) := if_pos less

theorem times_eq {a b : Nat} (less : a * b < 2 ^ 64) : times a b = .ok (a * b) := if_pos less

theorem alignedUp_eq {n a : Nat} (less : n + a < 2 ^ 64) : alignedUp n a = .ok (alignUp n a) := by
  rw [alignedUp, plus_eq less, ok_bind]

theorem readBytes_settles {length : Nat} (less : offset + length < 2 ^ 64) :
    Settles (readBytes memory offset length) := by
  rw [readBytes, plus_eq less, ok_bind, Memory.readBytes]
  split_ifs
  · exact .ok _
  · exact .refuses _

/-- Bytes that are read are those of the memory. -/
theorem readBytes_ok {length : Nat} {bytes : List UInt8}
    (read : readBytes memory offset length = .ok bytes) :
    offset + length ≤ SIZE ∧ Wasm.littleEndian bytes = numberAt memory offset length := by
  rw [readBytes, plus, usize] at read
  split_ifs at read with less
  · rw [ok_bind, Memory.readBytes] at read
    split_ifs at read with inside
    cases read
    exact ⟨inside, rfl⟩
  · cases read

theorem numberAt_lt : numberAt memory offset 4 < 2 ^ 32 := by
  have less := Wasm.littleEndian_lt ((List.range 4).map fun index => memory.bytes (offset + index))
  rw [List.length_map, List.length_range] at less
  exact less

theorem readText_settles {pointer length : Nat}
    (fits : length = 0 ∨ pointer + length < 2 ^ 64) :
    Settles (readText memory pointer length) := by
  rw [readText]
  split_ifs with empty
  · exact .ok _
  · rcases fits with none | less
    · exact absurd none empty
    · refine (readBytes_settles less).bind fun bytes _ => ?_
      rw [fromUtf8]
      split
      · exact .ok _
      · exact .refuses _

/-! ## The shape of a type -/

section Folds

variable {each : Ty → Answer (List FlatType)} {alignments sizes : Ty → Answer Nat}

theorem flattenFields_settles (settles : ∀ field ∈ fields, Settles (each field.ty)) :
    Settles (flattenFields each fields) := by
  induction fields with
  | nil => exact .ok _
  | cons field fields ih =>
      refine (settles field List.mem_cons_self).bind fun here _ => ?_
      exact (ih fun field listed => settles field (List.mem_cons_of_mem _ listed)).bind
        fun rest _ => .ok _

theorem flattenVariants_settles {payload : List FlatType}
    (settles : ∀ variant ∈ variants, ∀ field ∈ variant.fields, Settles (each field.ty)) :
    Settles (flattenVariants each payload variants) := by
  induction variants generalizing payload with
  | nil => exact .ok _
  | cons variant variants ih =>
      refine (flattenFields_settles (settles variant List.mem_cons_self)).bind fun here _ => ?_
      exact ih fun variant listed => settles variant (List.mem_cons_of_mem _ listed)

theorem maxFieldAlign_settles {a : Nat}
    (settles : ∀ field ∈ fields, Settles (alignments field.ty)) :
    Settles (maxFieldAlign alignments a fields) := by
  induction fields generalizing a with
  | nil => exact .ok _
  | cons field fields ih =>
      refine (settles field List.mem_cons_self).bind fun here _ => ?_
      exact ih fun field listed => settles field (List.mem_cons_of_mem _ listed)

theorem maxVariantAlign_settles {a : Nat}
    (settles : ∀ variant ∈ variants, ∀ field ∈ variant.fields,
      Settles (alignments field.ty)) :
    Settles (maxVariantAlign alignments a variants) := by
  induction variants generalizing a with
  | nil => exact .ok _
  | cons variant variants ih =>
      refine (maxFieldAlign_settles (settles variant List.mem_cons_self)).bind fun here _ => ?_
      exact ih fun variant listed => settles variant (List.mem_cons_of_mem _ listed)

theorem advance_settles
    (settles : ∀ field ∈ fields, Settles (alignments field.ty) ∧ Settles (sizes field.ty)) :
    Settles (advance alignments sizes offset fields) := by
  induction fields generalizing offset with
  | nil => exact .ok _
  | cons field fields ih =>
      have here := settles field List.mem_cons_self
      refine here.1.bind fun a _ => here.2.bind fun s _ => ?_
      exact ih fun field listed => settles field (List.mem_cons_of_mem _ listed)

theorem maxVariantPayloadSize_settles {most : Nat}
    (settles : ∀ variant ∈ variants, ∀ field ∈ variant.fields,
      Settles (alignments field.ty) ∧ Settles (sizes field.ty)) :
    Settles (maxVariantPayloadSize alignments sizes most variants) := by
  induction variants generalizing most with
  | nil => exact .ok _
  | cons variant variants ih =>
      refine (advance_settles (settles variant List.mem_cons_self)).bind fun here _ => ?_
      exact ih fun variant listed => settles variant (List.mem_cons_of_mem _ listed)

/-- Fields that were flattened were each flattened. -/
theorem flattened_field {types : List FlatType} (done : flattenFields each fields = .ok types)
    {field : Field} (listed : field ∈ fields) : ∃ here, each field.ty = .ok here := by
  induction fields generalizing types with
  | nil => exact absurd listed List.not_mem_nil
  | cons first fields ih =>
      obtain ⟨here, flat, done⟩ := ok_first done
      obtain ⟨rest, flats, -⟩ := ok_first done
      rcases List.mem_cons.mp listed with rfl | later
      · exact ⟨here, flat⟩
      · exact ih flats later

theorem flattened_variant {payload types : List FlatType}
    (done : flattenVariants each payload variants = .ok types) {variant : Variant}
    (listed : variant ∈ variants) : ∃ here, flattenFields each variant.fields = .ok here := by
  induction variants generalizing payload with
  | nil => exact absurd listed List.not_mem_nil
  | cons first variants ih =>
      obtain ⟨here, flat, done⟩ := ok_first done
      rcases List.mem_cons.mp listed with rfl | later
      · exact ⟨here, flat⟩
      · exact ih done later

/-- Fields whose widest alignment is known each have one. -/
theorem aligned_field {a most : Nat} (done : maxFieldAlign alignments a fields = .ok most)
    {field : Field} (listed : field ∈ fields) : ∃ here, alignments field.ty = .ok here := by
  induction fields generalizing a with
  | nil => exact absurd listed List.not_mem_nil
  | cons first fields ih =>
      obtain ⟨here, found, done⟩ := ok_first done
      rcases List.mem_cons.mp listed with rfl | later
      · exact ⟨here, found⟩
      · exact ih done later

theorem aligned_variant {a most : Nat}
    (done : maxVariantAlign alignments a variants = .ok most) {variant : Variant}
    (listed : variant ∈ variants) :
    ∃ before here, maxFieldAlign alignments before variant.fields = .ok here := by
  induction variants generalizing a with
  | nil => exact absurd listed List.not_mem_nil
  | cons first variants ih =>
      obtain ⟨here, found, done⟩ := ok_first done
      rcases List.mem_cons.mp listed with rfl | later
      · exact ⟨a, here, found⟩
      · exact ih done later

end Folds

theorem layoutAt_found (found : layouts[id]? = some layout) : layoutAt layouts id = .ok layout := by
  rw [layoutAt, found]
  rfl

/-- A layout that is no choice has one variant. -/
theorem only_variant (some_ : layout.variants ≠ []) (untagged : layout.isTagged = false) :
    ∃ variant, layout.variants = [variant] := by
  rw [Layout.isTagged, decide_eq_false_iff_not] at untagged
  cases variants : layout.variants with
  | nil => exact absurd variants some_
  | cons variant rest =>
      rw [variants, List.length_cons] at untagged
      have none_ : rest = [] := List.length_eq_zero_iff.mp (by omega)
      exact ⟨variant, by rw [none_]⟩

theorem variantAt_only {variant : Variant} (only : layout.variants = [variant]) :
    variantAt layout 0 = .ok variant := by
  rw [variantAt, only]
  rfl

theorem flatten_settles (ends : Ends layouts depth ty) : Settles (flatten layouts depth ty) := by
  induction depth generalizing ty with
  | zero => exact ends.elim
  | succ depth ih =>
      cases ty with
      | list element => exact (ih ends).bind fun _ _ => .ok _
      | aggregate id =>
          obtain ⟨layout, found, some_, each⟩ := ends
          rw [flatten, flattenAggregate, layoutAt_found found, ok_bind]
          split_ifs with tagged
          · refine Settles.bind (flattenVariants_settles fun variant listed field inside =>
              ih (each variant listed field inside)) fun _ _ => .ok _
          · obtain ⟨variant, only⟩ := only_variant some_ (Bool.not_eq_true _ ▸ tagged)
            rw [variantAt_only only, ok_bind]
            have listed : variant ∈ layout.variants := by
              rw [only]
              exact List.mem_cons_self
            exact flattenFields_settles fun field inside => ih (each variant listed field inside)
      | closure => exact .refuses _
      | capability => exact .refuses _
      | unit => exact .ok _
      | bool => exact .ok _
      | int => exact .ok _
      | str => exact .ok _

theorem alignOf_settles (ends : Ends layouts depth ty) : Settles (alignOf layouts depth ty) := by
  induction depth generalizing ty with
  | zero => exact ends.elim
  | succ depth ih =>
      cases ty with
      | list element => exact (@flatten_settles layouts depth element ends).bind fun _ _ => .ok _
      | aggregate id =>
          obtain ⟨layout, found, some_, each⟩ := ends
          rw [alignOf, layoutAt_found found, ok_bind]
          exact maxVariantAlign_settles fun variant listed field inside =>
            ih (each variant listed field inside)
      | closure => exact .refuses _
      | capability => exact .refuses _
      | unit => exact .ok _
      | bool => exact .ok _
      | int => exact .ok _
      | str => exact .ok _

theorem sizeOf_settles (ends : Ends layouts depth ty) : Settles (sizeOf layouts depth ty) := by
  induction depth generalizing ty with
  | zero => exact ends.elim
  | succ depth ih =>
      cases ty with
      | list element => exact (@flatten_settles layouts depth element ends).bind fun _ _ => .ok _
      | aggregate id =>
          obtain ⟨layout, found, some_, each⟩ := ends
          have measures : ∀ variant ∈ layout.variants, ∀ field ∈ variant.fields,
              Settles (alignOf layouts depth field.ty) ∧
                Settles (sizeOf layouts depth field.ty) :=
            fun variant listed field inside =>
              ⟨alignOf_settles (each variant listed field inside),
                ih (each variant listed field inside)⟩
          rw [sizeOf, sizeAggregate, layoutAt_found found, ok_bind]
          refine Settles.bind (maxVariantAlign_settles fun variant listed field inside =>
            (measures variant listed field inside).1) fun overall _ => ?_
          split_ifs with tagged
          · exact Settles.bind (maxVariantPayloadSize_settles measures) fun _ _ => .ok _
          · obtain ⟨variant, only⟩ := only_variant some_ (Bool.not_eq_true _ ▸ tagged)
            rw [variantAt_only only, ok_bind]
            have listed : variant ∈ layout.variants := by
              rw [only]
              exact List.mem_cons_self
            exact Settles.bind (advance_settles (measures variant listed)) fun _ _ => .ok _
      | closure => exact .refuses _
      | capability => exact .refuses _
      | unit => exact .ok _
      | bool => exact .ok _
      | int => exact .ok _
      | str => exact .ok _

/-- A type that ends and that could be flattened can cross. -/
theorem crosses_of_flatten {types : List FlatType} (ends : Ends layouts depth ty)
    (done : flatten layouts depth ty = .ok types) : Crosses layouts depth ty := by
  induction depth generalizing ty types with
  | zero => exact ends.elim
  | succ depth ih =>
      cases ty with
      | list element =>
          obtain ⟨inner, flat, -⟩ := ok_first done
          exact ih ends flat
      | aggregate id =>
          obtain ⟨layout, found, some_, each⟩ := ends
          refine ⟨layout, found, some_, fun variant listed field inside => ?_⟩
          rw [flatten, flattenAggregate, layoutAt_found found, ok_bind] at done
          have flattened : ∃ here, flattenFields (flatten layouts depth) variant.fields =
              .ok here := by
            split_ifs at done with tagged
            · obtain ⟨payload, joined, -⟩ := ok_first done
              exact flattened_variant joined listed
            · obtain ⟨first, only⟩ := only_variant some_ (Bool.not_eq_true _ ▸ tagged)
              rw [variantAt_only only, ok_bind] at done
              rw [only] at listed
              cases List.mem_singleton.mp listed
              exact ⟨types, done⟩
          obtain ⟨here, flat⟩ := flattened
          obtain ⟨types, flat⟩ := flattened_field flat inside
          exact ih (each variant listed field inside) flat
      | closure => cases done
      | capability => cases done
      | unit => exact trivial
      | bool => exact trivial
      | int => exact trivial
      | str => exact trivial

/-- A type that ends and that has an alignment can cross. -/
theorem crosses_of_alignOf {a : Nat} (ends : Ends layouts depth ty)
    (done : alignOf layouts depth ty = .ok a) : Crosses layouts depth ty := by
  induction depth generalizing ty a with
  | zero => exact ends.elim
  | succ depth ih =>
      cases ty with
      | list element =>
          obtain ⟨inner, flat, -⟩ := ok_first done
          exact @crosses_of_flatten layouts depth element inner ends flat
      | aggregate id =>
          obtain ⟨layout, found, some_, each⟩ := ends
          refine ⟨layout, found, some_, fun variant listed field inside => ?_⟩
          rw [alignOf, layoutAt_found found, ok_bind] at done
          obtain ⟨before, most, widest⟩ := aligned_variant done listed
          obtain ⟨here, found⟩ := aligned_field widest inside
          exact ih (each variant listed field inside) found
      | closure => cases done
      | capability => cases done
      | unit => exact trivial
      | bool => exact trivial
      | int => exact trivial
      | str => exact trivial

theorem elementStride_settles (ends : Ends layouts depth element) :
    Settles (elementStride layouts depth element) :=
  (sizeOf_settles ends).bind fun _ _ => (alignOf_settles ends).bind fun _ _ => .ok _

/-- What can cross ends. -/
theorem ends_of_crosses (crosses : Crosses layouts depth ty) : Ends layouts depth ty := by
  induction depth generalizing ty with
  | zero => exact crosses.elim
  | succ depth ih =>
      cases ty with
      | list element => exact ih crosses
      | aggregate id =>
          obtain ⟨layout, found, some_, each⟩ := crosses
          exact ⟨layout, found, some_, fun variant listed field inside =>
            ih (each variant listed field inside)⟩
      | closure => exact trivial
      | capability => exact trivial
      | unit => exact trivial
      | bool => exact trivial
      | int => exact trivial
      | str => exact trivial

/-! ## Out of memory -/

theorem alignUp_mono {n m a : Nat} (less : n ≤ m) : alignUp n a ≤ alignUp m a := by
  have quotients : (n + a - 1) / a ≤ (m + a - 1) / a := Nat.div_le_div_right (by omega)
  exact Nat.mul_le_mul_right a quotients

theorem alignUp_lt {n a : Nat} (pos : 0 < a) : alignUp n a < n + a := by
  have whole := Nat.div_mul_le_self (n + a - 1) a
  rw [alignUp]
  omega

theorem ended_mono {align size : Ty → Nat} {offset' : Nat} (less : offset ≤ offset') :
    ended align size offset fields ≤ ended align size offset' fields := by
  induction fields generalizing offset offset' with
  | nil => exact less
  | cons field fields ih => exact ih (Nat.add_le_add_right (alignUp_mono less) _)

/-- Where a value ends that is read at an offset, at the latest. -/
def endOf (layouts : List Layout) (depth : Nat) (ty : Ty) (offset : Nat) : Nat :=
  alignUp offset (aligned layouts depth ty) + sized layouts depth ty

theorem loadElements_settles {load : Ty → Nat → Answer Val} {pointer stride left index : Nat}
    (less : pointer + (index + left) * stride < 2 ^ 64)
    (loads : ∀ place, index ≤ place → place < index + left →
      Settles (load element (pointer + place * stride))) :
    Settles (loadElements load element pointer stride left index) := by
  induction left generalizing index with
  | zero => exact .ok _
  | succ left ih =>
      have below : index * stride ≤ (index + (left + 1)) * stride :=
        Nat.mul_le_mul_right stride (by omega)
      rw [loadElements, times_eq (by omega), ok_bind, plus_eq (by omega), ok_bind]
      refine (loads index (Nat.le_refl _) (by omega)).bind fun value _ => ?_
      have again : index + 1 + left = index + (left + 1) := by omega
      rw [← again] at less
      refine Settles.bind (ih less fun place after before => ?_) fun values _ => .ok _
      exact loads place (by omega) (by omega)

/-- A list is read when each of its elements is that ends below the last three words. -/
theorem readList_settles {asked : Nat → Prop} {pointer count : Nat}
    {load : Ty → Nat → Answer Val} (ends : Ends layouts depth element)
    (each : EachElement room (elementStride layouts depth element) asked pointer count)
    (loads : Crosses layouts depth element → ∀ offset,
      endOf layouts depth element offset + 16 ≤ 2 ^ 64 → asked offset →
        Settles (load element offset)) :
    Settles (readList load room (elementStride layouts depth element) element pointer count) := by
  refine (elementStride_settles ends).bind fun apart known => ?_
  obtain ⟨⟨small, fits⟩, all⟩ := each apart known
  rw [usize, if_pos small, ok_bind]
  obtain ⟨s, sizes, known⟩ := ok_first known
  obtain ⟨a, aligns, known⟩ := ok_first known
  have crosses := crosses_of_alignOf ends aligns
  have measured := crosses.measured
  have positive := measured.alignment.pos
  have eight : aligned layouts depth element ≤ 8 := by
    rcases measured.alignment with same | same | same <;> omega
  rw [measured.size] at sizes
  rw [measured.align] at aligns
  cases sizes
  cases aligns
  have wide : sized layouts depth element ≤ apart := by
    cases known
    exact le_alignUp (by omega)
  rcases fits with rfl | ⟨roomy, below⟩
  · rw [reserve, if_pos (Nat.zero_le _), ok_bind]
    exact .ok _
  · rw [reserve, if_pos roomy, ok_bind]
    refine Settles.bind (loadElements_settles (by rw [Nat.zero_add]; omega)
      fun place _ before => ?_) fun values _ => .ok _
    have next : place * apart + apart ≤ count * apart := by
      rw [← Nat.succ_mul]
      exact Nat.mul_le_mul_right apart (by omega)
    have up := alignUp_lt (n := pointer + place * apart) positive
    refine loads crosses _ ?_ (all place (by omega))
    rw [endOf]
    omega

theorem loadFields_settles {asked : Ty → Nat → Prop} {load : Ty → Nat → Answer Val}
    (measured : ∀ field ∈ fields, Measured layouts depth field.ty)
    (below : ended (aligned layouts depth) (sized layouts depth) offset fields + 16 ≤ 2 ^ 64)
    (each : EachField (aligned layouts depth) (sized layouts depth) asked fields offset)
    (loads : ∀ field ∈ fields, ∀ offset, endOf layouts depth field.ty offset + 16 ≤ 2 ^ 64 →
      asked field.ty offset → Settles (load field.ty offset)) :
    Settles (loadFields (alignOf layouts depth) (sizeOf layouts depth) load fields offset) := by
  induction fields generalizing offset with
  | nil => exact .ok _
  | cons field fields ih =>
      have here := measured field List.mem_cons_self
      have positive := here.alignment.pos
      have eight : aligned layouts depth field.ty ≤ 8 := by
        rcases here.alignment with same | same | same <;> omega
      have up := le_alignUp (n := offset) positive
      have rest : alignUp offset (aligned layouts depth field.ty) +
          sized layouts depth field.ty ≤ ended (aligned layouts depth) (sized layouts depth)
            (alignUp offset (aligned layouts depth field.ty) + sized layouts depth field.ty)
            fields :=
        le_ended fun field listed =>
          (measured field (List.mem_cons_of_mem _ listed)).alignment.pos
      rw [ended_cons] at below
      rw [loadFields, here.align, ok_bind, alignedUp_eq (by omega), ok_bind]
      refine Settles.bind (loads field List.mem_cons_self _ ?_ each.1) fun value _ => ?_
      · rw [endOf, alignUp_of_dvd positive (dvd_alignUp _ _)]
        omega
      · rw [here.size, ok_bind, plus_eq (by omega), ok_bind]
        refine Settles.bind (ih (fun field listed => measured field
          (List.mem_cons_of_mem _ listed)) below each.2 fun field listed => loads field
          (List.mem_cons_of_mem _ listed)) fun values _ => .ok _

/-- The fields of a record end where the record does. -/
theorem ended_untagged (laid : LaidOut layouts depth id layout) {variant : Variant}
    (untagged : layout.isTagged = false) (only : layout.variants = [variant]) :
    ended (aligned layouts depth) (sized layouts depth) offset variant.fields ≤
      endOf layouts (depth + 1) (.aggregate id) offset := by
  have listed : variant ∈ layout.variants := by
    rw [only]
    exact List.mem_cons_self
  have positive := laid.alignment.pos
  have from_ : ∀ field ∈ variant.fields, 0 < aligned layouts depth field.ty ∧
      aligned layouts depth field.ty ∣ alignUp offset (overall layouts depth layout) :=
    fun field inside => ⟨(laid.each variant listed field inside).alignment.pos,
      (laid.divides listed inside).trans (dvd_alignUp _ _)⟩
  rw [endOf, aligned, laid.align_eq, sized, laid.size_untagged untagged only]
  calc ended (aligned layouts depth) (sized layouts depth) offset variant.fields
      ≤ ended (aligned layouts depth) (sized layouts depth)
          (alignUp offset (overall layouts depth layout) + 0) variant.fields :=
        ended_mono (le_alignUp positive)
    _ = alignUp offset (overall layouts depth layout) +
          ended (aligned layouts depth) (sized layouts depth) 0 variant.fields := ended_add from_
    _ ≤ _ := Nat.add_le_add_left (le_alignUp positive) _

/-- The fields of a case end where the choice does. -/
theorem ended_tagged (laid : LaidOut layouts depth id layout) {variant : Variant}
    (tagged : layout.isTagged = true) (listed : variant ∈ layout.variants) :
    ended (aligned layouts depth) (sized layouts depth)
        (offset + alignUp (discriminantSize layout.variants.length)
          (overall layouts depth layout)) variant.fields ≤
      endOf layouts (depth + 1) (.aggregate id) offset := by
  have positive := laid.alignment.pos
  have from_ : ∀ field ∈ variant.fields, 0 < aligned layouts depth field.ty ∧
      aligned layouts depth field.ty ∣ alignUp offset (overall layouts depth layout) +
        alignUp (discriminantSize layout.variants.length) (overall layouts depth layout) :=
    fun field inside => ⟨(laid.each variant listed field inside).alignment.pos,
      (laid.divides listed inside).trans
        ((Nat.dvd_add_right (dvd_alignUp _ _)).mpr (dvd_alignUp _ _))⟩
  rw [endOf, aligned, laid.align_eq, sized, laid.size_tagged tagged]
  calc ended (aligned layouts depth) (sized layouts depth)
        (offset + alignUp (discriminantSize layout.variants.length)
          (overall layouts depth layout)) variant.fields
      ≤ ended (aligned layouts depth) (sized layouts depth)
          (alignUp offset (overall layouts depth layout) +
            alignUp (discriminantSize layout.variants.length)
              (overall layouts depth layout) + 0) variant.fields :=
        ended_mono (Nat.add_le_add_right (le_alignUp positive) _)
    _ = alignUp offset (overall layouts depth layout) +
          alignUp (discriminantSize layout.variants.length) (overall layouts depth layout) +
          ended (aligned layouts depth) (sized layouts depth) 0 variant.fields := ended_add from_
    _ ≤ alignUp offset (overall layouts depth layout) +
          (alignUp (discriminantSize layout.variants.length) (overall layouts depth layout) +
            longest (aligned layouts depth) (sized layouts depth) 0 layout.variants) := by
        rw [Nat.add_assoc]
        exact Nat.add_le_add_left (Nat.add_le_add_left (le_longest listed) _) _
    _ ≤ _ := Nat.add_le_add_left (le_alignUp positive) _

theorem discriminantSize_le (count : Nat) : discriminantSize count ≤ 4 := by
  rw [discriminantSize]
  split_ifs <;> decide

/-- An aggregate is read when its fields are. -/
theorem liftAggregateFromMemory_settles {load : Ty → Nat → Answer Val}
    {asked : Ty → Nat → Prop} (laid : LaidOut layouts depth id layout)
    (below : endOf layouts (depth + 1) (.aggregate id) offset + 16 ≤ 2 ^ 64)
    (each : if layout.isTagged then
        ∀ variant, layout.variants[numberAt memory offset
            (discriminantSize layout.variants.length)]? = some variant →
          EachField (aligned layouts depth) (sized layouts depth) asked variant.fields
            (offset + alignUp (discriminantSize layout.variants.length)
              (overall layouts depth layout))
      else ∀ variant, layout.variants[0]? = some variant →
        EachField (aligned layouts depth) (sized layouts depth) asked variant.fields offset)
    (loads : ∀ variant ∈ layout.variants, ∀ field ∈ variant.fields, ∀ offset,
      endOf layouts depth field.ty offset + 16 ≤ 2 ^ 64 → asked field.ty offset →
        Settles (load field.ty offset)) :
    Settles (liftAggregateFromMemory (alignOf layouts depth) (sizeOf layouts depth) load layouts
      id memory offset) := by
  have up : offset ≤ alignUp offset (overall layouts depth layout) := le_alignUp laid.alignment.pos
  have after : alignUp offset (overall layouts depth layout) ≤
      endOf layouts (depth + 1) (.aggregate id) offset := by
    rw [endOf, aligned, laid.align_eq]
    exact Nat.le_add_right _ _
  rw [liftAggregateFromMemory, laid.layoutAt_eq, ok_bind]
  cases tagged : layout.isTagged with
  | true =>
      rw [tagged, if_pos rfl] at each
      rw [if_pos rfl]
      have short := discriminantSize_le layout.variants.length
      refine Settles.bind (readBytes_settles (by omega)) fun bytes read => ?_
      dsimp only
      split_ifs with past
      · exact .refuses _
      · obtain ⟨variant, there⟩ : ∃ variant, layout.variants[Wasm.littleEndian bytes]? =
            some variant := ⟨_, List.getElem?_eq_getElem (Nat.lt_of_not_le past)⟩
        have listed := List.mem_of_getElem? there
        have fields := @ended_tagged layouts depth id layout offset laid variant tagged listed
        have begins := @le_ended variant.fields (aligned layouts depth) (sized layouts depth)
          (offset + alignUp (discriminantSize layout.variants.length)
            (overall layouts depth layout))
          fun field inside => (laid.each variant listed field inside).alignment.pos
        rw [variantAt, there]
        show Settles (maxVariantAlign (alignOf layouts depth) 1 layout.variants >>= _)
        rw [laid.alignments, ok_bind, plus_eq (by omega), ok_bind]
        rw [(readBytes_ok read).2] at there
        exact Settles.bind (loadFields_settles (laid.each variant listed) (by omega)
          (each variant there) (loads variant listed)) fun values _ => .ok _
  | false =>
      rw [tagged, if_neg Bool.false_ne_true] at each
      rw [if_neg Bool.false_ne_true]
      obtain ⟨variant, only, found⟩ := laid.variantAt_zero tagged
      have there : layout.variants[0]? = some variant := by
        rw [only]
        rfl
      have listed := List.mem_of_getElem? there
      have fields := @ended_untagged layouts depth id layout offset laid variant tagged only
      rw [found, ok_bind]
      exact Settles.bind (loadFields_settles (laid.each variant listed) (by omega)
        (each variant there) (loads variant listed)) fun values _ => .ok _

/-- A value below the last two words of the address space is read or refused. -/
theorem liftFromMemory_settles (crosses : Crosses layouts depth ty)
    (below : endOf layouts depth ty offset + 16 ≤ 2 ^ 64)
    (fits : ListsFit room layouts memory depth ty offset) :
    Settles (liftFromMemory room layouts memory depth ty offset) := by
  induction depth generalizing ty offset with
  | zero => exact crosses.elim
  | succ depth ih =>
      have up : offset ≤ endOf layouts (depth + 1) ty offset :=
        (le_alignUp crosses.measured.alignment.pos).trans (Nat.le_add_right _ _)
      cases ty with
      | unit => exact .ok _
      | bool => exact Settles.bind (readBytes_settles (by omega)) fun _ _ => .ok _
      | int => exact Settles.bind (readBytes_settles (by omega)) fun _ _ => .ok _
      | str =>
          refine Settles.bind (readBytes_settles (by omega)) fun pointer read => ?_
          rw [plus_eq (by omega), ok_bind]
          refine Settles.bind (readBytes_settles (by omega)) fun length read' => ?_
          apply readText_settles
          rw [(readBytes_ok read).2, (readBytes_ok read').2]
          have first := @numberAt_lt memory offset
          have second := @numberAt_lt memory (offset + 4)
          exact .inr (by omega)
      | list element =>
          refine Settles.bind (readBytes_settles (by omega)) fun pointer read => ?_
          rw [plus_eq (by omega), ok_bind]
          refine Settles.bind (readBytes_settles (by omega)) fun count read' => ?_
          obtain ⟨inside, same'⟩ := readBytes_ok read'
          rw [(readBytes_ok read).2, same']
          exact readList_settles (@ends_of_crosses layouts depth element crosses) (fits (by omega))
            fun crosses offset below fits => ih crosses below fits
      | aggregate id =>
          obtain ⟨layout, found, some_, each⟩ := crosses
          have laid : LaidOut layouts depth id layout :=
            ⟨found, some_, fun variant listed field inside =>
              (each variant listed field inside).measured⟩
          exact liftAggregateFromMemory_settles laid below (fits layout found)
            fun variant listed field inside offset below fits =>
              ih (each variant listed field inside) below fits
      | closure => exact crosses.elim
      | capability => exact crosses.elim

/-! ## From flat arguments -/

theorem liftFields_settles {flatten : Ty → Answer (List FlatType)}
    {lift : List FlatArg → Ty → Answer Val} {asked : List FlatArg → Ty → Prop} {cursor : Nat}
    (flattens : ∀ field ∈ fields, Settles (flatten field.ty))
    (lifts : ∀ field ∈ fields, ∀ args types, flatten field.ty = .ok types →
      asked args field.ty → Settles (lift args field.ty))
    (given : EachGiven flatten asked flat fields cursor) :
    Settles (liftFields flatten lift flat fields cursor) := by
  induction fields generalizing cursor with
  | nil => exact .ok _
  | cons field fields ih =>
      refine (flattens field List.mem_cons_self).bind fun types known => ?_
      obtain ⟨there, here, rest⟩ := given types known
      rw [slice, if_pos there, ok_bind]
      refine (lifts field List.mem_cons_self _ types known here).bind fun value _ => ?_
      exact Settles.bind (ih (fun field listed => flattens field (List.mem_cons_of_mem _ listed))
        (fun field listed => lifts field (List.mem_cons_of_mem _ listed)) rest)
        fun values _ => .ok _

theorem lift_settles (ends : Ends layouts depth ty)
    (given : Given room layouts memory depth flat ty) :
    Settles (lift room layouts memory depth flat ty) := by
  induction depth generalizing ty flat with
  | zero => exact ends.elim
  | succ depth ih =>
      cases ty with
      | unit => exact .ok _
      | bool => exact .ok _
      | int => exact .ok _
      | str => exact readText_settles given
      | list element =>
          exact @readList_settles layouts depth room element _ _ _ _ ends given
            fun crosses offset below fits => liftFromMemory_settles crosses below fits
      | aggregate id =>
          obtain ⟨layout, found, some_, each⟩ := ends
          have fields : ∀ variant ∈ layout.variants, ∀ cursor,
              EachGiven (flatten layouts depth) (Given room layouts memory depth) flat
                variant.fields cursor →
              Settles (liftFields (flatten layouts depth) (lift room layouts memory depth) flat
                variant.fields cursor) := by
            intro variant listed cursor given
            apply liftFields_settles (fun field inside =>
              flatten_settles (each variant listed field inside)) _ given
            exact fun field inside args types _ given =>
              ih (each variant listed field inside) given
          have given := given layout found
          rw [lift, liftAggregateFlat, layoutAt_found found, ok_bind]
          cases tagged : layout.isTagged with
          | true =>
              rw [tagged, if_pos rfl, if_pos rfl] at given
              rw [if_pos rfl]
              dsimp only
              split_ifs with past
              · exact .refuses _
              · obtain ⟨variant, there⟩ : ∃ variant, layout.variants[firstUsize flat]? =
                    some variant := ⟨_, List.getElem?_eq_getElem (Nat.lt_of_not_le past)⟩
                rw [variantAt, there]
                show Settles (liftFields _ _ flat variant.fields 1 >>= _)
                exact Settles.bind (fields variant (List.mem_of_getElem? there) 1
                  (given variant there)) fun values _ => .ok _
          | false =>
              rw [tagged, if_neg Bool.false_ne_true, if_neg Bool.false_ne_true] at given
              rw [if_neg Bool.false_ne_true]
              obtain ⟨variant, only⟩ := only_variant some_ tagged
              have there : layout.variants[0]? = some variant := by
                rw [only]
                rfl
              rw [variantAt_only only, ok_bind]
              exact Settles.bind (fields variant (List.mem_of_getElem? there) 0
                (given variant there)) fun values _ => .ok _
      | closure => exact .refuses _
      | capability => exact .refuses _

/-- A record of a number and a list of numbers. -/
def marked : List Layout :=
  [⟨"Marked", [⟨"Marked", [⟨"size", .int⟩, ⟨"marks", .list .int⟩]⟩], false⟩]

/-- A choice that holds a list of itself. -/
def tree : List Layout :=
  [⟨"Tree", [⟨"Leaf", []⟩, ⟨"Node", [⟨"children", .list (.aggregate 0)⟩]⟩], true⟩]

theorem flatten_tree (depth : Nat) : flatten tree depth (.aggregate 0) = .error .deeper := by
  induction depth using Nat.twoStepInduction with
  | zero => rfl
  | one => rfl
  | more depth ih _ =>
      show flattenAggregate (flatten tree (depth + 1)) tree 0 = _
      have inner : flatten tree (depth + 1) (.list (.aggregate 0)) = .error .deeper := by
        rw [flatten, ih]
        rfl
      rw [flattenAggregate, layoutAt_found rfl, ok_bind]
      simp only [tree, Layout.isTagged, List.length_cons, List.length_nil, flattenVariants,
        flattenFields] at inner ⊢
      rw [inner]
      rfl

end Deed.Abi.Machine
