import Deed.Abi.Shapes

/-!
# Values in a component's memory

What is lowered into memory is lifted from it again: each write keeps what was handed out
before and lies where the reading looks for it.
-/

namespace Deed.Abi

open Deed.Mir (Ty Layout LayoutId Variant Field)

variable {layouts : List Layout} {depth : Nat} {ty : Ty} {id : LayoutId} {layout : Layout}
  {before middle after last : Memory} {lo mid hi : Nat} {reads reads' : Memory → Prop}

/-! ## What values need -/

/-- The values of a type, followed to a depth.  A choice of a single variant is not tagged,
and its values are its fields; the length of a list and a discriminant fit an `i32`. -/
def HasType (layouts : List Layout) : Nat → Val → Ty → Prop
  | 0, _, _ => False
  | depth + 1, value, ty =>
      match value, ty with
      | .unit, .unit => True
      | .bool _, .bool => True
      | .int _, .int => True
      | .str _, .str => True
      | .list elements, .list element =>
          elements.length < 2 ^ 31 ∧ ∀ value ∈ elements, HasType layouts depth value element
      | .record values, .aggregate id => ∃ layout variant, layouts[id]? = some layout ∧
          layout.variants = [variant] ∧
            List.Forall₂ (fun value field => HasType layouts depth value field.ty) values
              variant.fields
      | .variant discriminant values, .aggregate id => ∃ layout variant,
          layouts[id]? = some layout ∧ layout.isTagged = true ∧ discriminant < 2 ^ 31 ∧
            layout.variants[discriminant]? = some variant ∧
              List.Forall₂ (fun value field => HasType layouts depth value field.ty) values
                variant.fields
      | _, _ => False

/-- The fields of a variant. -/
def fieldsOf (layouts : List Layout) (id : LayoutId) (discriminant : Nat) : List Field :=
  ((layouts[id]?).bind fun layout => layout.variants[discriminant]?).elim [] Variant.fields

/-- Where the memory that has been handed out ends after a value is lowered, its own block
apart. -/
def spent (layouts : List Layout) : Nat → Val → Ty → Nat → Nat
  | 0, _, _, next => next
  | depth + 1, value, ty, next =>
      match value, ty with
      | .str text, .str => next + (textBytes text).length
      | .list elements, .list element =>
          if elements.isEmpty then next
          else elements.foldl (fun next value => spent layouts depth value element next)
            (alignUp next (max (aligned layouts depth element) 1) +
              alignUp (sized layouts depth element) (max (aligned layouts depth element) 1) *
                elements.length)
      | .record values, .aggregate id =>
          (values.zip (fieldsOf layouts id 0)).foldl
            (fun next part => spent layouts depth part.1 part.2.ty next) next
      | .variant discriminant values, .aggregate id =>
          (values.zip (fieldsOf layouts id discriminant)).foldl
            (fun next part => spent layouts depth part.1 part.2.ty next) next
      | _, _ => next

theorem le_foldl {α : Type} {step : Nat → α → Nat} (up : ∀ next part, next ≤ step next part)
    (parts : List α) (next : Nat) : next ≤ parts.foldl step next := by
  induction parts generalizing next with
  | nil => exact Nat.le_refl next
  | cons part parts ih => exact (up next part).trans (ih _)

theorem le_spent (layouts : List Layout) (depth : Nat) (value : Val) (ty : Ty) (next : Nat) :
    next ≤ spent layouts depth value ty next := by
  induction depth generalizing value ty next with
  | zero => exact Nat.le_refl next
  | succ depth ih =>
      unfold spent
      split
      · exact Nat.le_add_right _ _
      · split
        · exact Nat.le_refl next
        · exact ((le_alignUp (Nat.le_max_right _ 1)).trans (Nat.le_add_right _ _)).trans
            (le_foldl (fun next _ => ih _ _ next) _ _)
      · exact le_foldl (fun next _ => ih _ _ next) _ _
      · exact le_foldl (fun next _ => ih _ _ next) _ _
      · exact Nat.le_refl next

/-! ## Writes -/

/-- Two memories hold the same between two addresses. -/
def Agree (memory last : Memory) (lo hi : Nat) : Prop :=
  ∀ address, lo ≤ address → address < hi → last.bytes address = memory.bytes address

/-- What a write does between two addresses of memory that was handed out: the rest of what
was handed out is kept, and `reads` holds of every memory that agrees on these addresses and
on what the write has handed out itself. -/
structure Lays (before after : Memory) (lo hi : Nat) (reads : Memory → Prop) : Prop where
  above : before.next ≤ after.next
  frame : ∀ address, address < before.next → address < lo ∨ hi ≤ address →
    after.bytes address = before.bytes address
  reads : ∀ last, Agree after last lo hi → Agree after last before.next after.next → reads last

namespace Lays

theorem nothing (memory : Memory) (lo hi : Nat) (always : ∀ last, reads last) :
    Lays memory memory lo hi reads :=
  ⟨Nat.le_refl _, fun _ _ _ => rfl, fun last _ _ => always last⟩

theorem mono (lays : Lays before after lo hi reads) (weaker : ∀ last, reads last → reads' last) :
    Lays before after lo hi reads' :=
  ⟨lays.above, lays.frame, fun last here there => weaker last (lays.reads last here there)⟩

theorem widen {lo' hi' : Nat} (lays : Lays before after lo hi reads) (low : lo' ≤ lo)
    (high : hi ≤ hi') : Lays before after lo' hi' reads := by
  constructor
  · exact lays.above
  · intro address below outside
    exact lays.frame address below (by omega)
  · intro last here there
    apply lays.reads last _ there
    intro address above below
    exact here address (by omega) (by omega)

/-- One write after another, each where the other is not. -/
theorem append (first : Lays before middle lo mid reads) (second : Lays middle after mid hi reads')
    (low : lo ≤ mid) (high : mid ≤ hi) (inside : hi ≤ before.next) :
    Lays before after lo hi fun last => reads last ∧ reads' last := by
  have above := first.above
  have above' := second.above
  constructor
  · exact above.trans above'
  · intro address below outside
    rw [second.frame address (by omega) (by omega), first.frame address below (by omega)]
  · intro last here there
    constructor
    · apply first.reads last
      · intro address up down
        rw [here address up (by omega), second.frame address (by omega) (.inl down)]
      · intro address up down
        rw [there address up (by omega), second.frame address down (.inr (by omega))]
    · apply second.reads last
      · intro address up down
        exact here address (by omega) down
      · intro address up down
        exact there address (by omega) down

/-- A write into memory that has just been handed out touches nothing from before. -/
theorem fresh (lays : Lays middle after lo hi reads) (same : middle.bytes = before.bytes)
    (low : before.next ≤ lo) (high : hi ≤ middle.next) (wide : lo ≤ hi) (at_ : Nat) :
    Lays before after at_ at_ reads := by
  have above := lays.above
  constructor
  · omega
  · intro address below _
    rw [lays.frame address (by omega) (.inl (by omega)), same]
  · intro last _ there
    apply lays.reads last
    · intro address up down
      exact there address (by omega) (by omega)
    · intro address up down
      exact there address (by omega) down

end Lays

theorem alloc_eq {memory : Memory} {size align : Nat} (pos : 0 < align)
    (fits : alignUp memory.next align + size ≤ SIZE) :
    ∃ after, memory.alloc size align = .ok (alignUp memory.next align, after) ∧
      after.bytes = memory.bytes ∧ after.next = alignUp memory.next align + size := by
  have same : max align 1 = align := max_eq_left pos
  refine ⟨⟨memory.bytes, alignUp memory.next align + size, fits⟩, ?_, rfl, rfl⟩
  simp only [Memory.alloc, same]
  exact dif_pos fits

/-- Bytes written are read where they were written. -/
theorem writeBytes_lays {memory : Memory} {at_ : Nat} {data : List UInt8}
    (inside : at_ + data.length ≤ memory.next) :
    ∃ after, memory.writeBytes at_ data = .ok after ∧ after.next = memory.next ∧
      Lays memory after at_ (at_ + data.length)
        fun last => last.readBytes at_ data.length = .ok data := by
  have within : at_ + data.length ≤ SIZE := inside.trans memory.inside
  rw [Memory.writeBytes, if_pos within]
  refine ⟨_, rfl, rfl, Nat.le_refl _, ?_, ?_⟩
  · intro address below outside
    show (if at_ ≤ address then data[address - at_]? else none).getD _ = _
    split
    · rw [List.getElem?_eq_none (by omega)]
      rfl
    · rfl
  · intro last here _
    rw [Memory.readBytes, if_pos within]
    congr 1
    apply List.ext_getElem
    · rw [List.length_map, List.length_range]
    · intro index below below'
      rw [List.getElem_map, List.getElem_range, here _ (Nat.le_add_right _ _) (by omega)]
      show (if at_ ≤ at_ + index then data[at_ + index - at_]? else none).getD _ = _
      rw [if_pos (Nat.le_add_right _ _), Nat.add_sub_cancel_left,
        List.getElem?_eq_getElem below', Option.getD_some]

/-! ## Numbers and texts -/

theorem length_leBytes (count value : Nat) : (leBytes count value).length = count := by
  rw [leBytes, List.length_map, List.length_range]

theorem littleEndian_leBytes {count value : Nat} (small : value < 256 ^ count) :
    Wasm.littleEndian (leBytes count value) = value := by
  rw [leBytes, Wasm.littleEndian_byteOf, Nat.mod_eq_of_lt small]

theorem fromUtf8_textBytes (text : String) : fromUtf8 (textBytes text) = .ok (.str text) := by
  rw [fromUtf8, textBytes, Rt.fromUtf8_asBytes]
  show Except.ok (Val.str (String.ofList text.toList)) = _
  rw [String.ofList_toList]

theorem textBytes_eq_nil {text : String} (empty : textBytes text = []) : text = "" := by
  have spelled := fromUtf8_textBytes text
  rw [empty] at spelled
  have same := Except.ok.inj spelled
  exact (Val.str.inj same).symm

theorem alignUp_one (n : Nat) : alignUp n 1 = n := alignUp_of_dvd Nat.one_pos (Nat.one_dvd n)

/-- The bytes of a text are read from the block they went into. -/
theorem allocText_lays {memory : Memory} {text : String}
    (room : memory.next + (textBytes text).length ≤ SIZE) (at_ : Nat) :
    ∃ pointer after, allocText text memory = .ok (pointer, after) ∧ pointer ≤ SIZE ∧
      after.next = memory.next + (textBytes text).length ∧
        Lays memory after at_ at_
          fun last => readText last pointer (textBytes text).length = .ok (.str text) := by
  rw [allocText]
  split
  · next empty =>
      refine ⟨0, memory, rfl, Nat.zero_le _, by rw [empty]; rfl, .nothing _ _ _ fun last => ?_⟩
      rw [empty, textBytes_eq_nil empty]
      rfl
  · next some_ =>
      have long : (textBytes text).length ≠ 0 := fun none_ => some_ (List.length_eq_zero_iff.mp none_)
      have same := alignUp_one memory.next
      obtain ⟨middle, allocated, kept, next⟩ :=
        @alloc_eq memory (textBytes text).length 1 Nat.one_pos (by rw [same]; exact room)
      rw [same] at allocated next
      obtain ⟨after, written, next', lays⟩ :=
        @writeBytes_lays middle memory.next (textBytes text) (by omega)
      rw [allocated, ok_bind]
      show ∃ pointer after', (middle.writeBytes memory.next (textBytes text) >>= fun memory' =>
        Except.ok (memory.next, memory')) = Except.ok (pointer, after') ∧ _
      rw [written, ok_bind]
      refine ⟨_, _, rfl, memory.inside, by omega, ?_⟩
      refine (lays.fresh kept (Nat.le_refl _) (by omega) (by omega) at_).mono ?_
      intro last reads
      rw [readText, if_neg long, reads, ok_bind, fromUtf8_textBytes]

/-- A pointer and a length are read where they were written. -/
theorem writePair_lays {memory : Memory} {offset pointer length : Nat}
    (inside : offset + 8 ≤ memory.next) (small : pointer < 2 ^ 32) (small' : length < 2 ^ 32) :
    ∃ after, writePair memory offset pointer length = .ok after ∧ after.next = memory.next ∧
      Lays memory after offset (offset + 8) fun last =>
        ∃ first second, last.readBytes offset 4 = .ok first ∧
          last.readBytes (offset + 4) 4 = .ok second ∧ Wasm.littleEndian first = pointer ∧
            Wasm.littleEndian second = length := by
  have count := length_leBytes 4 pointer
  have count' := length_leBytes 4 length
  obtain ⟨middle, written, next, lays⟩ :=
    @writeBytes_lays memory offset (leBytes 4 pointer) (by omega)
  obtain ⟨after, written', next', lays'⟩ :=
    @writeBytes_lays middle (offset + 4) (leBytes 4 length) (by omega)
  rw [count] at lays
  rw [count'] at lays'
  rw [writePair, written, ok_bind, written']
  refine ⟨after, rfl, by omega, ?_⟩
  refine (lays.append lays' (by omega) (by omega) (by omega)).mono ?_
  rintro last ⟨first, second⟩
  exact ⟨_, _, first, second, littleEndian_leBytes small, littleEndian_leBytes small'⟩

/-! ## Aggregates and lists -/

/-- What a value lowered into memory at an offset comes to. -/
def Stores (layouts : List Layout) (depth : Nat) (value : Val) (ty : Ty) : Prop :=
  ∀ (memory : Memory) (offset : Nat), aligned layouts depth ty ∣ offset →
    offset + sized layouts depth ty ≤ memory.next →
      spent layouts depth value ty memory.next ≤ SIZE →
        ∃ after, lowerToMemory layouts depth value ty memory offset = .ok after ∧
          after.next = spent layouts depth value ty memory.next ∧
            Lays memory after offset (offset + sized layouts depth ty)
              fun last => liftFromMemory layouts depth ty last offset = .ok value

/-- The bump pointer after some fields. -/
def spentFields (layouts : List Layout) (depth : Nat) (values : List Val)
    (fields : List Field) (next : Nat) : Nat :=
  (values.zip fields).foldl (fun next part => spent layouts depth part.1 part.2.ty next) next

theorem le_spentFields (values : List Val) (fields : List Field) (next : Nat) :
    next ≤ spentFields layouts depth values fields next :=
  le_foldl (fun next _ => le_spent _ _ _ _ next) _ _

/-- Fields stored one after the other are loaded one after the other. -/
theorem storeFields_lays {values : List Val} {fields : List Field}
    (stored : List.Forall₂ (fun value field => Stores layouts depth value field.ty) values fields)
    (measured : ∀ field ∈ fields, Measured layouts depth field.ty) {memory : Memory}
    {offset : Nat}
    (ends : ended (aligned layouts depth) (sized layouts depth) offset fields ≤ hi)
    (inside : hi ≤ memory.next)
    (room : spentFields layouts depth values fields memory.next ≤ SIZE) :
    ∃ after, storeFields (alignOf layouts depth) (sizeOf layouts depth)
        (lowerToMemory layouts depth) values fields memory offset = .ok after ∧
      after.next = spentFields layouts depth values fields memory.next ∧
        Lays memory after offset hi fun last =>
          loadFields (alignOf layouts depth) (sizeOf layouts depth)
            (fun ty offset => liftFromMemory layouts depth ty last offset) fields offset =
              .ok values := by
  induction stored generalizing memory offset with
  | nil => exact ⟨memory, rfl, rfl, .nothing _ _ _ fun _ => rfl⟩
  | @cons value field values fields stores rest ih =>
      have here := measured field List.mem_cons_self
      have later := fun other listed => measured other (List.mem_cons_of_mem field listed)
      have up := @le_alignUp offset _ here.alignment.pos
      rw [ended_cons] at ends
      have beyond := @le_ended fields (aligned layouts depth) (sized layouts depth)
        (alignUp offset (aligned layouts depth field.ty) + sized layouts depth field.ty)
        fun other listed => (later other listed).alignment.pos
      have room' := (le_spentFields values fields _).trans room
      obtain ⟨middle, lowered, next, lays⟩ :=
        stores memory (alignUp offset (aligned layouts depth field.ty)) (dvd_alignUp _ _)
          ((beyond.trans ends).trans inside) room'
      have above := lays.above
      obtain ⟨after, lowered', next', lays'⟩ :=
        ih later ends (inside.trans above) (by rw [next]; exact room)
      refine ⟨after, ?_, ?_, ?_⟩
      · rw [storeFields, here.align, ok_bind, lowered, ok_bind, here.size, ok_bind, lowered']
      · rw [next', next]
        rfl
      · refine ((lays.append lays' (Nat.le_add_right _ _) (beyond.trans ends) inside).widen up
          (Nat.le_refl _)).mono ?_
        rintro last ⟨loads, loads'⟩
        rw [loadFields, here.align, ok_bind, loads, ok_bind, here.size, ok_bind, loads', ok_bind]

/-- The bump pointer after some elements. -/
def spentElements (layouts : List Layout) (depth : Nat) (element : Ty) (values : List Val)
    (next : Nat) : Nat :=
  values.foldl (fun next value => spent layouts depth value element next) next

/-- Elements stored a stride apart are loaded a stride apart. -/
theorem storeElements_lays {values : List Val} {element : Ty} {stride : Nat}
    (stored : ∀ value ∈ values, Stores layouts depth value element)
    (wide : sized layouts depth element ≤ stride)
    (divides : aligned layouts depth element ∣ stride) {memory : Memory} {offset : Nat}
    (divides' : aligned layouts depth element ∣ offset)
    (inside : offset + stride * values.length ≤ memory.next)
    (room : spentElements layouts depth element values memory.next ≤ SIZE) :
    ∃ after, storeElements (lowerToMemory layouts depth) element stride values memory offset =
        .ok after ∧
      after.next = spentElements layouts depth element values memory.next ∧
        Lays memory after offset (offset + stride * values.length) fun last =>
          loadElements (fun ty offset => liftFromMemory layouts depth ty last offset) element
            stride values.length offset = .ok values := by
  induction values generalizing memory offset with
  | nil => exact ⟨memory, rfl, rfl, .nothing _ _ _ fun _ => rfl⟩
  | cons value values ih =>
      have length : stride * (value :: values).length = stride + stride * values.length := by
        rw [List.length_cons, Nat.mul_succ, Nat.add_comm]
      rw [length] at inside ⊢
      have room' : spent layouts depth value element memory.next ≤ SIZE :=
        (le_foldl (fun next _ => le_spent _ _ _ _ next) values _).trans room
      obtain ⟨middle, lowered, next, lays⟩ :=
        stored value List.mem_cons_self memory offset divides' (by omega) room'
      have above := lays.above
      obtain ⟨after, lowered', next', lays'⟩ :=
        ih (fun other listed => stored other (List.mem_cons_of_mem _ listed))
          (Nat.dvd_add divides' divides) (show offset + stride + _ ≤ middle.next by omega)
          (by rw [next]; exact room)
      refine ⟨after, ?_, ?_, ?_⟩
      · rw [storeElements, lowered, ok_bind, lowered']
      · rw [next', next]
        rfl
      · have whole : offset + (stride + stride * values.length) =
            offset + stride + stride * values.length := by omega
        rw [whole]
        refine ((lays.widen (Nat.le_refl _) (Nat.add_le_add_left wide _)).append lays'
          (Nat.le_add_right _ _) (Nat.le_add_right _ _) (by omega)).mono ?_
        rintro last ⟨loads, loads'⟩
        rw [List.length_cons, loadElements, loads, ok_bind, loads', ok_bind]

/-- The elements of a list are loaded from the block they went into. -/
theorem allocElements_lays {elements : List Val} {element : Ty}
    (measured : Measured layouts depth element)
    (stored : ∀ value ∈ elements, Stores layouts depth value element) {memory : Memory}
    (room : spent layouts (depth + 1) (.list elements) (.list element) memory.next ≤ SIZE)
    (at_ : Nat) :
    ∃ pointer after stride, elementStride layouts depth element = .ok stride ∧
      allocElements (aligned layouts depth element) stride
        (storeElements (lowerToMemory layouts depth) element stride) elements memory =
          .ok (pointer, after) ∧ pointer ≤ SIZE ∧
        after.next = spent layouts (depth + 1) (.list elements) (.list element) memory.next ∧
          Lays memory after at_ at_ fun last =>
            loadElements (fun ty offset => liftFromMemory layouts depth ty last offset) element
              stride elements.length pointer = .ok elements := by
  have pos := measured.alignment.pos
  have same : max (aligned layouts depth element) 1 = aligned layouts depth element :=
    max_eq_left pos
  have stride : elementStride layouts depth element =
      .ok (alignUp (sized layouts depth element) (aligned layouts depth element)) := by
    rw [elementStride, measured.size, ok_bind, measured.align, ok_bind, same]
  cases elements with
  | nil =>
      exact ⟨0, memory, _, stride, rfl, Nat.zero_le _, rfl, .nothing _ _ _ fun _ => rfl⟩
  | cons value values =>
      have spends : spent layouts (depth + 1) (.list (value :: values)) (.list element)
          memory.next = spentElements layouts depth element (value :: values)
            (alignUp memory.next (aligned layouts depth element) +
              alignUp (sized layouts depth element) (aligned layouts depth element) *
                (value :: values).length) := by
        rw [spent, List.isEmpty_cons, if_neg Bool.false_ne_true, same]
        rfl
      rw [spends] at room ⊢
      have block := (le_foldl (fun next value => le_spent layouts depth value element next)
        (value :: values) _).trans room
      have up := @le_alignUp memory.next _ pos
      obtain ⟨middle, allocated, kept, next⟩ := alloc_eq pos block
      obtain ⟨after, lowered, next', lays⟩ :=
        storeElements_lays stored (le_alignUp pos) (dvd_alignUp _ _) (dvd_alignUp memory.next _)
          (Nat.le_of_eq next.symm) (by rw [next]; exact room)
      refine ⟨alignUp memory.next (aligned layouts depth element), after, _, stride, ?_, ?_, ?_, ?_⟩
      · rw [allocElements, same, allocated, ok_bind]
        show (storeElements _ element _ (value :: values) middle _ >>= fun memory' =>
          Except.ok (_, memory')) = _
        rw [lowered, ok_bind]
      · exact (Nat.le_add_right _ _).trans block
      · rw [next', next]
      · exact lays.fresh kept up (Nat.le_of_eq next.symm) (Nat.le_add_right _ _) at_

section Aggregates

variable {variant : Variant} {values : List Val} {discriminant : Nat}

theorem aligned_aggregate (laid : LaidOut layouts depth id layout) :
    aligned layouts (depth + 1) (.aggregate id) = overall layouts depth layout := by
  rw [aligned, laid.align_eq]
  rfl

theorem fieldsOf_eq (found : layouts[id]? = some layout)
    (there : layout.variants[discriminant]? = some variant) :
    fieldsOf layouts id discriminant = variant.fields := by
  rw [fieldsOf, found, Option.bind_some, there]
  rfl

/-- The fields of a variant lie inside the aggregate from any multiple of its alignment. -/
theorem ended_within (laid : LaidOut layouts depth id layout)
    (listed : variant ∈ layout.variants) {base : Nat}
    (divides : overall layouts depth layout ∣ base) :
    ended (aligned layouts depth) (sized layouts depth) base variant.fields =
      base + ended (aligned layouts depth) (sized layouts depth) 0 variant.fields := by
  rw [← Nat.add_zero base, ended_add, Nat.add_zero]
  intro field inside
  exact ⟨(laid.each variant listed field inside).alignment.pos,
    (laid.divides listed inside).trans divides⟩

theorem stores_record (laid : LaidOut layouts depth id layout)
    (untagged : layout.isTagged = false) (only : layout.variants = [variant])
    (stored : List.Forall₂ (fun value field => Stores layouts depth value field.ty) values
      variant.fields) : Stores layouts (depth + 1) (.record values) (.aggregate id) := by
  intro memory offset divides inside room
  have listed : variant ∈ layout.variants := by
    rw [only]
    exact List.mem_cons_self
  have there : layout.variants[0]? = some variant := by
    rw [only]
    rfl
  have first : variantAt layout 0 = .ok variant := by
    rw [variantAt, there]
    rfl
  have size : sized layouts (depth + 1) (.aggregate id) =
      alignUp (ended (aligned layouts depth) (sized layouts depth) 0 variant.fields)
        (overall layouts depth layout) := by
    rw [sized, laid.size_untagged untagged only]
    rfl
  rw [aligned_aggregate laid] at divides
  have fit := @le_alignUp (ended (aligned layouts depth) (sized layouts depth) 0 variant.fields) _
    laid.alignment.pos
  rw [← size] at fit
  have spends : spent layouts (depth + 1) (.record values) (.aggregate id) memory.next =
      spentFields layouts depth values variant.fields memory.next := by
    rw [spent, fieldsOf_eq laid.found there]
    rfl
  rw [spends] at room
  obtain ⟨after, stored', next, lays⟩ :=
    storeFields_lays stored (laid.each variant listed)
      (by rw [ended_within laid listed divides]; exact Nat.add_le_add_left fit offset) inside room
  refine ⟨after, ?_, by rw [next, spends], lays.mono fun last loads => ?_⟩
  · rw [lowerToMemory, lowerAggregateToMemory, laid.layoutAt_eq, ok_bind, untagged,
      if_neg Bool.false_ne_true]
    show (variantAt layout 0 >>= _) = _
    rw [first, ok_bind, stored']
  · rw [liftFromMemory, liftAggregateFromMemory, laid.layoutAt_eq, ok_bind, untagged,
      if_neg Bool.false_ne_true, first, ok_bind, loads, ok_bind]

/-- A discriminant fits the bytes that it is written in. -/
theorem discriminant_fits {count : Nat} (below : discriminant < count) (small : discriminant < 2 ^ 31) :
    discriminant < 256 ^ discriminantSize count := by
  rw [discriminantSize]
  split
  · omega
  · split <;> omega

theorem stores_variant (laid : LaidOut layouts depth id layout)
    (tagged : layout.isTagged = true) (small : discriminant < 2 ^ 31)
    (there : layout.variants[discriminant]? = some variant)
    (stored : List.Forall₂ (fun value field => Stores layouts depth value field.ty) values
      variant.fields) :
    Stores layouts (depth + 1) (.variant discriminant values) (.aggregate id) := by
  intro memory offset divides inside room
  have listed : variant ∈ layout.variants := List.mem_of_getElem? there
  have below : discriminant < layout.variants.length := (List.getElem?_eq_some_iff.mp there).1
  have picked : variantAt layout discriminant = .ok variant := by
    rw [variantAt, there]
    rfl
  have size : sized layouts (depth + 1) (.aggregate id) =
      alignUp (alignUp (discriminantSize layout.variants.length) (overall layouts depth layout) +
        longest (aligned layouts depth) (sized layouts depth) 0 layout.variants)
        (overall layouts depth layout) := by
    rw [sized, laid.size_tagged tagged]
    rfl
  rw [aligned_aggregate laid] at divides
  have pos := laid.alignment.pos
  have fit := @le_alignUp (alignUp (discriminantSize layout.variants.length)
    (overall layouts depth layout) +
      longest (aligned layouts depth) (sized layouts depth) 0 layout.variants) _ pos
  rw [← size] at fit
  have long := @le_longest _ _ (aligned layouts depth) (sized layouts depth) 0 listed
  have head := @le_alignUp (discriminantSize layout.variants.length) _ pos
  have spends : spent layouts (depth + 1) (.variant discriminant values) (.aggregate id)
      memory.next = spentFields layouts depth values variant.fields memory.next := by
    rw [spent, fieldsOf_eq laid.found there]
    rfl
  rw [spends] at room
  have count := length_leBytes (discriminantSize layout.variants.length) discriminant
  obtain ⟨middle, written, next, lays⟩ :=
    @writeBytes_lays memory offset (leBytes (discriminantSize layout.variants.length) discriminant)
      (by omega)
  rw [count] at lays
  have ends : ended (aligned layouts depth) (sized layouts depth)
      (offset + alignUp (discriminantSize layout.variants.length) (overall layouts depth layout))
        variant.fields ≤ offset + sized layouts (depth + 1) (.aggregate id) := by
    rw [ended_within laid listed (Nat.dvd_add divides (dvd_alignUp _ _))]
    omega
  have room' : spentFields layouts depth values variant.fields middle.next ≤ SIZE := by
    rw [next]
    exact room
  obtain ⟨after, stored', next', lays'⟩ :=
    storeFields_lays stored (laid.each variant listed) ends (by omega) room'
  refine ⟨after, ?_, by rw [next', next, spends], ?_⟩
  · rw [lowerToMemory, lowerAggregateToMemory, laid.layoutAt_eq, ok_bind, if_pos tagged]
    show (variantAt layout discriminant >>= _) = _
    rw [picked, ok_bind]
    show (memory.writeBytes offset _ >>= _) = _
    rw [written, ok_bind, laid.alignments, ok_bind, stored']
  · refine ((lays.widen (Nat.le_refl _) (Nat.add_le_add_left head offset)).append lays'
      (Nat.le_add_right _ _) (by omega) inside).mono ?_
    rintro last ⟨reads, loads⟩
    have disc : Wasm.littleEndian (leBytes (discriminantSize layout.variants.length) discriminant) =
        discriminant := littleEndian_leBytes (discriminant_fits below small)
    rw [liftFromMemory, liftAggregateFromMemory, laid.layoutAt_eq, ok_bind, if_pos tagged]
    show (last.readBytes offset _ >>= _) = _
    rw [reads, ok_bind]
    simp only [disc]
    rw [if_neg (Nat.not_le_of_lt below), picked, ok_bind, laid.alignments, ok_bind, loads, ok_bind]

end Aggregates

theorem untagged_of_only {variant : Variant} (only : layout.variants = [variant]) :
    layout.isTagged = false := by
  rw [Layout.isTagged, only]
  rfl

/-- What holds of every value of a type that crosses holds of the values of some fields. -/
theorem typed_fields {holds : Val → Ty → Prop} {values : List Val} {fields : List Field}
    (all : ∀ {ty : Ty} {value : Val}, Crosses layouts depth ty →
      HasType layouts depth value ty → holds value ty)
    (crosses : ∀ field ∈ fields, Crosses layouts depth field.ty)
    (typed : List.Forall₂ (fun value field => HasType layouts depth value field.ty) values
      fields) :
    List.Forall₂ (fun value field => holds value field.ty) values fields := by
  induction typed with
  | nil => exact .nil
  | cons here _ ih =>
      exact .cons (all (crosses _ List.mem_cons_self) here)
        (ih fun field listed => crosses field (List.mem_cons_of_mem _ listed))

/-- A byte, read as a number. -/
theorem littleEndian_byte (byte : UInt8) : Wasm.littleEndian [byte] = byte.toNat := by
  rw [Wasm.littleEndian, Wasm.littleEndian, Nat.mul_zero, Nat.add_zero]

/-- What is lowered into memory is lifted from there again. -/
theorem stores {value : Val} (crosses : Crosses layouts depth ty)
    (typed : HasType layouts depth value ty) : Stores layouts depth value ty := by
  induction depth generalizing value ty with
  | zero => exact crosses.elim
  | succ depth ih =>
      cases ty with
      | unit =>
          cases value with
          | unit => exact fun memory offset _ _ _ => ⟨memory, rfl, rfl, .nothing _ _ _ fun _ => rfl⟩
          | _ => exact typed.elim
      | bool =>
          cases value with
          | bool b =>
              intro memory offset _ inside _
              obtain ⟨after, written, next, lays⟩ :=
                @writeBytes_lays memory offset [if b then 1 else 0] inside
              refine ⟨after, written, next, lays.mono fun last reads => ?_⟩
              have bytes : last.readBytes offset 1 = .ok [if b then 1 else 0] := reads
              rw [liftFromMemory, bytes, ok_bind, littleEndian_byte]
              cases b <;> rfl
          | _ => exact typed.elim
      | int =>
          cases value with
          | int n =>
              intro memory offset _ inside _
              have count := length_leBytes 8 n.toUInt64.toNat
              obtain ⟨after, written, next, lays⟩ :=
                @writeBytes_lays memory offset (leBytes 8 n.toUInt64.toNat)
                  (by rw [count]; exact inside)
              rw [count] at lays
              refine ⟨after, written, next, lays.mono fun last reads => ?_⟩
              rw [liftFromMemory, reads, ok_bind, littleEndian_leBytes n.toUInt64.toNat_lt,
                UInt64.ofNat_toNat]
              rfl
          | _ => exact typed.elim
      | str =>
          cases value with
          | str text =>
              intro memory offset _ inside room
              obtain ⟨pointer, middle, allocated, low, next, lays⟩ := allocText_lays room offset
              have above := lays.above
              have within := middle.inside
              obtain ⟨after, written, next', lays'⟩ :=
                @writePair_lays middle offset pointer (textBytes text).length
                  (inside.trans above) (low.trans_lt (by decide))
                  (by rw [SIZE] at within; omega)
              refine ⟨after, ?_, next'.trans next, ?_⟩
              · rw [lowerToMemory, allocated, ok_bind]
                exact written
              · refine (lays.append lays' (Nat.le_refl _) (Nat.le_add_right _ _) inside).mono ?_
                rintro last ⟨reads, first, second, read, read', rfl, same⟩
                rw [liftFromMemory, read, ok_bind, read', ok_bind, same]
                exact reads
          | _ => exact typed.elim
      | list element =>
          cases value with
          | list elements =>
              intro memory offset _ inside room
              have measured : Measured layouts depth element := Crosses.measured crosses
              have eight : sized layouts (depth + 1) (.list element) = 8 := by
                rw [sized, sizeOf, measured.flat, ok_bind]
                rfl
              rw [eight] at inside ⊢
              obtain ⟨pointer, middle, stride, strode, allocated, low, next, lays⟩ :=
                allocElements_lays measured
                  (fun value listed => ih crosses (typed.2 value listed)) room offset
              have above := lays.above
              obtain ⟨after, written, next', lays'⟩ :=
                @writePair_lays middle offset pointer elements.length
                  (inside.trans above) (low.trans_lt (by decide)) (typed.1.trans (by decide))
              refine ⟨after, ?_, next'.trans next, ?_⟩
              · rw [lowerToMemory, strode, ok_bind, measured.align, ok_bind, allocated, ok_bind]
                exact written
              · refine (lays.append lays' (Nat.le_refl _) (Nat.le_add_right _ _) inside).mono ?_
                rintro last ⟨loads, first, second, read, read', rfl, same⟩
                rw [liftFromMemory, read, ok_bind, read', ok_bind, strode, ok_bind, same, loads,
                  ok_bind]
          | _ => exact typed.elim
      | aggregate id =>
          obtain ⟨layout, found, some_, each⟩ := crosses
          have laid : LaidOut layouts depth id layout :=
            ⟨found, some_, fun variant listed field inside =>
              Crosses.measured (each variant listed field inside)⟩
          cases value with
          | record values =>
              obtain ⟨other, variant, found', only, typed⟩ := typed
              obtain rfl := Option.some_inj.mp (found.symm.trans found')
              have listed : variant ∈ layout.variants := by
                rw [only]
                exact List.mem_cons_self
              exact stores_record laid (untagged_of_only only) only
                (typed_fields ih (each variant listed) typed)
          | variant discriminant values =>
              obtain ⟨other, variant, found', tagged, small, there, typed⟩ := typed
              obtain rfl := Option.some_inj.mp (found.symm.trans found')
              exact stores_variant laid tagged small there
                (typed_fields ih (each variant (List.mem_of_getElem? there)) typed)
          | _ => exact typed.elim
      | closure => exact crosses.elim
      | capability => exact crosses.elim

end Deed.Abi
