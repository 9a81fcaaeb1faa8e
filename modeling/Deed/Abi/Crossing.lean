import Deed.Abi.InMemory

/-!
# Values across the boundary

The flat arguments of a value have the flat types of its type, and lifting them over the
memory that lowering left gives the value back.
-/

namespace Deed.Abi

open Deed.Mir (Ty Layout LayoutId Variant Field)

variable {layouts : List Layout} {depth : Nat} {ty : Ty} {id : LayoutId} {layout : Layout}
  {variant : Variant} {value : Val} {values : List Val} {discriminant : Nat}

/-! ## Joined flat types -/

/-- A list of flat types is covered by a list that is no shorter and no narrower. -/
def Under : List FlatType → List FlatType → Prop
  | [], _ => True
  | a :: as, b :: bs => (a = .i64 → b = .i64) ∧ Under as bs
  | _ :: _, [] => False

theorem Under.refl (types : List FlatType) : Under types types := by
  induction types with
  | nil => exact trivial
  | cons type types ih => exact ⟨id, ih⟩

theorem Under.trans {a b c : List FlatType} (first : Under a b) (second : Under b c) :
    Under a c := by
  induction a generalizing b c with
  | nil => exact trivial
  | cons type types ih =>
      cases b with
      | nil => exact first.elim
      | cons other others =>
          cases c with
          | nil => exact second.elim
          | cons last lasts =>
              exact ⟨fun wide => second.1 (first.1 wide), ih first.2 second.2⟩

theorem under_join_left (a b : List FlatType) : Under a (joinFlatLists a b) := by
  induction a generalizing b with
  | nil => exact trivial
  | cons type types ih =>
      cases b with
      | nil => exact .refl _
      | cons other others =>
          refine ⟨?_, ih others⟩
          rintro rfl
          rfl

theorem under_join_right (a b : List FlatType) : Under b (joinFlatLists a b) := by
  induction a generalizing b with
  | nil =>
      cases b with
      | nil => exact trivial
      | cons other others => exact .refl _
  | cons type types ih =>
      cases b with
      | nil => exact trivial
      | cons other others =>
          refine ⟨?_, ih others⟩
          rintro rfl
          cases type <;> rfl

/-- The flat types of a variant are covered by the join of all. -/
theorem under_joined {types : Ty → List FlatType} {payload : List FlatType}
    {variants : List Variant} (listed : variant ∈ variants) :
    Under (variant.fields.flatMap fun field => types field.ty) (joined types payload variants) := by
  have start : ∀ (variants : List Variant) (payload : List FlatType),
      Under payload (joined types payload variants) := by
    intro variants
    induction variants with
    | nil => exact Under.refl
    | cons variant variants ih => exact fun payload => (under_join_left _ _).trans (ih _)
  induction variants generalizing payload with
  | nil => exact absurd listed List.not_mem_nil
  | cons first variants ih =>
      rcases List.mem_cons.mp listed with rfl | later
      · exact (under_join_right _ _).trans (start variants _)
      · exact ih later

theorem types_zeros (types : List FlatType) :
    (types.map FlatArg.zeroFor).map FlatArg.ty = types := by
  induction types with
  | nil => rfl
  | cons type types ih =>
      rw [List.map_cons, List.map_cons, ih]
      cases type <;> rfl

theorem length_widen (types : List FlatType) (args : List FlatArg) :
    (widen types args).length = args.length := by
  induction args generalizing types with
  | nil => rfl
  | cons arg args ih => rw [widen, List.length_cons, ih, List.length_cons]

/-- A payload that is widened and filled up has the joined types. -/
theorem types_padded {args : List FlatArg} {types : List FlatType}
    (under : Under (args.map FlatArg.ty) types) :
    (pad types (widen types args)).map FlatArg.ty = types := by
  induction args generalizing types with
  | nil => exact types_zeros types
  | cons arg args ih =>
      cases types with
      | nil => exact under.elim
      | cons type types =>
          have rest := ih under.2
          have here : (if (type :: types).head? = some .i64 then FlatArg.i64 arg.asI64 else arg).ty =
              type := by
            have wide : arg.ty = .i64 → type = .i64 := under.1
            cases type with
            | i64 => rfl
            | i32 =>
                cases arg with
                | i32 v => rfl
                | i64 v => exact absurd (wide rfl) (by decide)
          rw [pad, widen, List.cons_append, List.map_cons, here, List.length_cons]
          exact congrArg (type :: ·) rest

/-- Coercing back undoes the widening. -/
theorem coerce_widened {args : List FlatArg} {types : List FlatType} :
    coerceFlat (widen types args) (args.map FlatArg.ty) = args := by
  induction args generalizing types with
  | nil => rfl
  | cons arg args ih =>
      rw [widen, List.map_cons]
      cases arg with
      | i32 v =>
          rw [FlatArg.ty, coerceFlat, ih]
          split
          · have back : v.toInt64.toInt32 = v := Int32.toInt32_toInt64 v
            rw [FlatArg.asI64, FlatArg.asI32, back]
          · rfl
      | i64 v =>
          rw [FlatArg.ty, coerceFlat, ih]
          split <;> rfl

theorem coerce_self (args : List FlatArg) : coerceFlat args (args.map FlatArg.ty) = args := by
  induction args with
  | nil => rfl
  | cons arg args ih =>
      rw [List.map_cons]
      cases arg with
      | i32 v => rw [FlatArg.ty, coerceFlat, ih, FlatArg.asI32]
      | i64 v => rw [FlatArg.ty, coerceFlat, ih, FlatArg.asI64]

/-! ## Arguments among others -/

/-- Some flat arguments are found from a position on, when they are coerced. -/
def Carries (flat : List FlatArg) (cursor : Nat) (args : List FlatArg) : Prop :=
  cursor + args.length ≤ flat.length ∧
    coerceFlat ((flat.drop cursor).take args.length) (args.map FlatArg.ty) = args

theorem carries_self (args : List FlatArg) : Carries args 0 args := by
  refine ⟨Nat.le_of_eq (Nat.zero_add _), ?_⟩
  rw [List.drop_zero, List.take_length, coerce_self]

theorem carries_padded {args : List FlatArg} {types : List FlatType} {head : FlatArg} :
    Carries (head :: pad types (widen types args)) 1 args := by
  have length := length_widen types args
  constructor
  · rw [List.length_cons, pad, List.length_append, length]
    omega
  · have front : (pad types (widen types args)).take args.length = widen types args := by
      rw [pad, ← length]
      exact List.take_left
    rw [List.drop_one, List.tail_cons, front]
    exact coerce_widened

theorem coerceFlat_append {args : List FlatArg} {types types' : List FlatType}
    (args' : List FlatArg) (length : args.length = types.length) :
    coerceFlat (args ++ args') (types ++ types') = coerceFlat args types ++ coerceFlat args' types' := by
  induction args generalizing types with
  | nil =>
      obtain rfl : types = [] := List.length_eq_zero_iff.mp length.symm
      rfl
  | cons arg args ih =>
      cases types with
      | nil => exact absurd length (Nat.succ_ne_zero _)
      | cons type types =>
          have rest := ih (Nat.succ.inj length)
          cases type with
          | i32 => rw [List.cons_append, List.cons_append, coerceFlat, rest, coerceFlat,
              List.cons_append]
          | i64 => rw [List.cons_append, List.cons_append, coerceFlat, rest, coerceFlat,
              List.cons_append]

theorem length_coerceFlat {args : List FlatArg} {types : List FlatType}
    (length : args.length = types.length) : (coerceFlat args types).length = types.length := by
  induction args generalizing types with
  | nil =>
      obtain rfl : types = [] := List.length_eq_zero_iff.mp length.symm
      rfl
  | cons arg args ih =>
      cases types with
      | nil => exact absurd length (Nat.succ_ne_zero _)
      | cons type types =>
          cases type <;> rw [coerceFlat, List.length_cons, ih (Nat.succ.inj length), List.length_cons]

/-- What carries some arguments after others carries both. -/
theorem Carries.split {flat args args' : List FlatArg} {cursor : Nat}
    (carries : Carries flat cursor (args ++ args')) :
    Carries flat cursor args ∧ Carries flat (cursor + args.length) args' := by
  obtain ⟨inside, coerced⟩ := carries
  rw [List.length_append] at inside coerced
  have front : ((flat.drop cursor).take args.length).length = (args.map FlatArg.ty).length := by
    rw [List.length_take, List.length_drop, List.length_map]
    omega
  rw [List.take_add, List.map_append, coerceFlat_append _ front, List.drop_drop] at coerced
  have parts := List.append_inj coerced (by rw [length_coerceFlat front, List.length_map])
  refine ⟨⟨by omega, parts.1⟩, by omega, ?_⟩
  exact parts.2

theorem Carries.slice {flat args : List FlatArg} {cursor : Nat}
    (carries : Carries flat cursor args) :
    ∃ found, slice flat cursor (args.map FlatArg.ty).length = .ok found ∧
      coerceFlat found (args.map FlatArg.ty) = args := by
  refine ⟨_, if_pos (by rw [List.length_map]; exact carries.1), ?_⟩
  rw [List.length_map]
  exact carries.2

/-! ## Lowering to flat arguments -/

/-- What a value lowered to flat arguments comes to. -/
def Lowers (layouts : List Layout) (depth : Nat) (value : Val) (ty : Ty) : Prop :=
  ∀ memory : Memory, spent layouts depth value ty memory.next ≤ SIZE →
    ∃ args after,
      lowerFlat layouts depth value ty (flats layouts depth ty) memory = .ok (args, after) ∧
        after.next = spent layouts depth value ty memory.next ∧
          args.map FlatArg.ty = flats layouts depth ty ∧
            Lays memory after 0 0 fun last => lift layouts last depth args ty = .ok value

/-- Fields lowered one after the other are lifted from wherever their arguments are. -/
theorem lowerFields_lays {fields : List Field}
    (lowers : List.Forall₂ (fun value field => Lowers layouts depth value field.ty) values fields)
    (measured : ∀ field ∈ fields, Measured layouts depth field.ty) {memory : Memory}
    (room : spentFields layouts depth values fields memory.next ≤ SIZE) :
    ∃ args after, lowerFields (flatten layouts depth) (lowerFlat layouts depth) values fields
        memory = .ok (args, after) ∧
      after.next = spentFields layouts depth values fields memory.next ∧
        args.map FlatArg.ty = fields.flatMap (fun field => flats layouts depth field.ty) ∧
          Lays memory after 0 0 fun last => ∀ flat cursor, Carries flat cursor args →
            liftFields (flatten layouts depth) (lift layouts last depth) flat fields cursor =
              .ok values := by
  induction lowers generalizing memory with
  | nil => exact ⟨[], memory, rfl, rfl, rfl, .nothing _ _ _ fun _ _ _ _ => rfl⟩
  | @cons value field values fields lower rest ih =>
      have here := measured field List.mem_cons_self
      obtain ⟨args, middle, lowered, next, types, lays⟩ :=
        lower memory ((le_spentFields values fields _).trans room)
      obtain ⟨args', after, lowered', next', types', lays'⟩ :=
        @ih (fun other listed => measured other (List.mem_cons_of_mem field listed)) middle
          (by rw [next]; exact room)
      refine ⟨args ++ args', after, ?_, ?_, ?_, ?_⟩
      · rw [lowerFields, here.flat, ok_bind, lowered, ok_bind]
        show (lowerFields _ _ values fields middle >>= _) = _
        rw [lowered', ok_bind]
      · rw [next', next]
        rfl
      · rw [List.map_append, types, types', List.flatMap_cons]
      · refine (lays.append lays' (Nat.le_refl _) (Nat.le_refl _) (Nat.zero_le _)).mono ?_
        rintro last ⟨lifts, lifts'⟩ flat cursor carries
        obtain ⟨first, second⟩ := carries.split
        obtain ⟨found, sliced, coerced⟩ := first.slice
        have length : (flats layouts depth field.ty).length = args.length := by
          rw [← types, List.length_map]
        rw [types] at sliced coerced
        rw [liftFields, here.flat, ok_bind, sliced, ok_bind, coerced, lifts, ok_bind, length,
          lifts' flat _ second, ok_bind]

theorem lowers_record (laid : LaidOut layouts depth id layout)
    (only : layout.variants = [variant])
    (lowers : List.Forall₂ (fun value field => Lowers layouts depth value field.ty) values
      variant.fields) : Lowers layouts (depth + 1) (.record values) (.aggregate id) := by
  intro memory room
  have untagged := untagged_of_only only
  have listed : variant ∈ layout.variants := by
    rw [only]
    exact List.mem_cons_self
  have there : layout.variants[0]? = some variant := by
    rw [only]
    rfl
  have first : variantAt layout 0 = .ok variant := by
    rw [variantAt, there]
    rfl
  have types : flats layouts (depth + 1) (.aggregate id) =
      variant.fields.flatMap fun field => flats layouts depth field.ty := by
    rw [flats, laid.flat_untagged untagged only]
    rfl
  have spends : spent layouts (depth + 1) (.record values) (.aggregate id) memory.next =
      spentFields layouts depth values variant.fields memory.next := by
    rw [spent, fieldsOf_eq laid.found there]
    rfl
  rw [spends] at room
  obtain ⟨args, after, lowered, next, types', lays⟩ :=
    lowerFields_lays lowers (laid.each variant listed) room
  refine ⟨args, after, ?_, by rw [next, spends], by rw [types', types], lays.mono ?_⟩
  · rw [lowerFlat, lowerAggregateFlat, laid.layoutAt_eq, ok_bind, untagged,
      if_neg Bool.false_ne_true]
    show (variantAt layout 0 >>= _) = _
    rw [first, ok_bind, lowered]
  · intro last lifts
    rw [lift, liftAggregateFlat, laid.layoutAt_eq, ok_bind, untagged, if_neg Bool.false_ne_true,
      first, ok_bind, lifts args 0 (carries_self args), ok_bind]

theorem asUsize_ofNat {number : Nat} (small : number < 2 ^ 31) :
    asUsize (Int32.ofNat number) = number := by
  have widened : (Int32.ofNat number).toInt64 = Int64.ofNat number :=
    Int32.toInt64_ofNat' (by
      have most : Int32.maxValue.toInt = 2147483647 := rfl
      omega)
  have unsigned : (Int64.ofNat number).toUInt64 = UInt64.ofNat number := rfl
  rw [asUsize, widened, unsigned, UInt64.toNat_ofNat', Nat.mod_eq_of_lt (by omega)]

theorem lowers_variant (laid : LaidOut layouts depth id layout)
    (tagged : layout.isTagged = true) (small : discriminant < 2 ^ 31)
    (there : layout.variants[discriminant]? = some variant)
    (lowers : List.Forall₂ (fun value field => Lowers layouts depth value field.ty) values
      variant.fields) :
    Lowers layouts (depth + 1) (.variant discriminant values) (.aggregate id) := by
  intro memory room
  have listed : variant ∈ layout.variants := List.mem_of_getElem? there
  have below : discriminant < layout.variants.length := (List.getElem?_eq_some_iff.mp there).1
  have picked : variantAt layout discriminant = .ok variant := by
    rw [variantAt, there]
    rfl
  have types : flats layouts (depth + 1) (.aggregate id) =
      .i32 :: joined (flats layouts depth) [] layout.variants := by
    rw [flats, laid.flat_tagged tagged]
    rfl
  have spends : spent layouts (depth + 1) (.variant discriminant values) (.aggregate id)
      memory.next = spentFields layouts depth values variant.fields memory.next := by
    rw [spent, fieldsOf_eq laid.found there]
    rfl
  rw [spends] at room
  obtain ⟨args, after, lowered, next, types', lays⟩ :=
    lowerFields_lays lowers (laid.each variant listed) room
  have under : Under (args.map FlatArg.ty) (joined (flats layouts depth) [] layout.variants) := by
    rw [types']
    exact under_joined listed
  refine ⟨.i32 (Int32.ofNat discriminant) ::
      pad (joined (flats layouts depth) [] layout.variants)
        (widen (joined (flats layouts depth) [] layout.variants) args),
    after, ?_, by rw [next, spends], ?_, lays.mono ?_⟩
  · rw [lowerFlat, lowerAggregateFlat, laid.layoutAt_eq, ok_bind, if_pos tagged]
    show (variantAt layout discriminant >>= _) = _
    rw [picked, ok_bind, lowered, ok_bind, types]
    rfl
  · rw [List.map_cons, types_padded under, types]
    rfl
  · intro last lifts
    rw [lift, liftAggregateFlat, laid.layoutAt_eq, ok_bind, if_pos tagged]
    have disc : ∀ rest, firstUsize (.i32 (Int32.ofNat discriminant) :: rest) = discriminant :=
      fun rest => asUsize_ofNat small
    simp only [disc]
    rw [if_neg (Nat.not_le_of_lt below), picked, ok_bind, lifts _ 1 carries_padded, ok_bind]

/-- What is lowered to flat arguments is lifted from them again. -/
theorem lowers (crosses : Crosses layouts depth ty) (typed : HasType layouts depth value ty) :
    Lowers layouts depth value ty := by
  induction depth generalizing value ty with
  | zero => exact crosses.elim
  | succ depth ih =>
      cases ty with
      | unit =>
          cases value with
          | unit => exact fun memory _ => ⟨[], memory, rfl, rfl, rfl, .nothing _ _ _ fun _ => rfl⟩
          | _ => exact typed.elim
      | bool =>
          cases value with
          | bool b =>
              refine fun memory _ => ⟨[.i32 (if b then 1 else 0)], memory, rfl, rfl, rfl,
                .nothing _ _ _ fun _ => ?_⟩
              cases b <;> rfl
          | _ => exact typed.elim
      | int =>
          cases value with
          | int n => exact fun memory _ => ⟨[.i64 n], memory, rfl, rfl, rfl, .nothing _ _ _ fun _ => rfl⟩
          | _ => exact typed.elim
      | str =>
          cases value with
          | str text =>
              intro memory room
              obtain ⟨pointer, after, allocated, low, next, lays⟩ := allocText_lays room 0
              have within := after.inside
              rw [SIZE] at low within
              refine ⟨[.i32 (Int32.ofNat pointer), .i32 (Int32.ofNat (textBytes text).length)],
                after, ?_, next, rfl, lays.mono fun last reads => ?_⟩
              · rw [lowerFlat, allocated, ok_bind]
              · show readText last (asUsize (Int32.ofNat pointer))
                  (asUsize (Int32.ofNat (textBytes text).length)) = _
                rw [asUsize_ofNat (by omega), asUsize_ofNat (by omega)]
                exact reads
          | _ => exact typed.elim
      | list element =>
          cases value with
          | list elements =>
              intro memory room
              have measured : Measured layouts depth element := Crosses.measured crosses
              have types : flats layouts (depth + 1) (.list element) = [.i32, .i32] := by
                rw [flats, flatten, measured.flat, ok_bind]
                rfl
              obtain ⟨pointer, after, stride, strode, allocated, low, next, lays⟩ :=
                allocElements_lays measured
                  (fun value listed => stores crosses (typed.2 value listed)) room 0
              rw [SIZE] at low
              refine ⟨[.i32 (Int32.ofNat pointer), .i32 (Int32.ofNat elements.length)], after, ?_,
                next, by rw [types]; rfl, lays.mono fun last loads => ?_⟩
              · rw [lowerFlat, strode, ok_bind, measured.align, ok_bind, allocated, ok_bind]
              · rw [lift, strode, ok_bind]
                show (loadElements _ element stride (asUsize (Int32.ofNat elements.length))
                  (asUsize (Int32.ofNat pointer)) >>= _) = _
                rw [asUsize_ofNat typed.1, asUsize_ofNat (by omega), loads, ok_bind]
          | _ => exact typed.elim
      | aggregate id =>
          obtain ⟨layout, found, some_, each⟩ := crosses
          have laid : LaidOut layouts depth id layout :=
            ⟨found, some_, fun variant listed field inside =>
              Crosses.measured (each variant listed field inside)⟩
          cases value with
          | record values =>
              obtain ⟨other, variant, found', only, typed⟩ := typed
              obtain rfl := Option.some_inj.mp (found.symm.trans found')
              have listed : variant ∈ layout.variants := by
                rw [only]
                exact List.mem_cons_self
              exact lowers_record laid only (typed_fields ih (each variant listed) typed)
          | variant discriminant values =>
              obtain ⟨other, variant, found', tagged, small, there, typed⟩ := typed
              obtain rfl := Option.some_inj.mp (found.symm.trans found')
              exact lowers_variant laid tagged small there
                (typed_fields ih (each variant (List.mem_of_getElem? there)) typed)
          | _ => exact typed.elim
      | closure => exact crosses.elim
      | capability => exact crosses.elim

/-! ## The whole boundary -/

/-- Memory has room for what lowering a value hands out: the heap data of the value and, where
it is passed by pointer, the block it goes into. -/
def Room (layouts : List Layout) (depth : Nat) (value : Val) (ty : Ty) (memory : Memory) :
    Prop :=
  if MAX_FLAT < (flats layouts depth ty).length then
    spent layouts depth value ty
      (alignUp memory.next (aligned layouts depth ty) + sized layouts depth ty) ≤ SIZE
  else spent layouts depth value ty memory.next ≤ SIZE

/-- A value survives the boundary: it is lowered to flat arguments of the flat types of its
type, or to the one pointer where these are too many, with every byte handed out before kept,
and `back` gives it back from the arguments and the memory. -/
def Survives (layouts : List Layout) (depth : Nat) (value : Val) (ty : Ty) (memory : Memory)
    (back : List FlatType → List FlatArg → Memory → Answer Val) : Prop :=
  ∃ types args after, flatten layouts depth ty = .ok types ∧
    lower layouts depth value ty memory = .ok (args, after) ∧
      (∀ address, address < memory.next → after.bytes address = memory.bytes address) ∧
        args.map FlatArg.ty = (if MAX_FLAT < types.length then [.i32] else types) ∧
          back types args after = .ok value

/-- What the flat arguments of a type are read with: `lift`, which takes as many as there are
flat types, or a read of the block that the one pointer refers to. -/
def raised (layouts : List Layout) (depth : Nat) (ty : Ty) (types : List FlatType)
    (args : List FlatArg) (memory : Memory) : Answer Val :=
  if MAX_FLAT < types.length then liftFromMemory layouts depth ty memory (firstUsize args)
  else lift layouts memory depth args ty

/-- Every value of a type that crosses survives the boundary, wherever there is room. -/
theorem values_survive (crosses : Crosses layouts depth ty)
    (typed : HasType layouts depth value ty) {memory : Memory}
    (room : Room layouts depth value ty memory) :
    Survives layouts depth value ty memory (raised layouts depth ty) := by
  have measured := crosses.measured
  rw [Room] at room
  by_cases many : MAX_FLAT < (flats layouts depth ty).length
  · rw [if_pos many] at room
    have block := (le_spent layouts depth value ty _).trans room
    have up := @le_alignUp memory.next _ measured.alignment.pos
    obtain ⟨middle, allocated, kept, next⟩ := alloc_eq measured.alignment.pos block
    obtain ⟨after, lowered, next', lays⟩ := stores crosses typed middle
      (alignUp memory.next (aligned layouts depth ty)) (dvd_alignUp _ _)
      (Nat.le_of_eq next.symm) (by rw [next]; exact room)
    have fresh := lays.fresh kept up (Nat.le_of_eq next.symm) (Nat.le_add_right _ _) 0
    refine ⟨_, [.i32 (Int32.ofNat (alignUp memory.next (aligned layouts depth ty)))], after,
      measured.flat, ?_, ?_, ?_, ?_⟩
    · rw [lower, measured.flat, ok_bind, if_pos many, measured.size, ok_bind, measured.align,
        ok_bind, allocated, ok_bind]
      show (lowerToMemory layouts depth value ty middle _ >>= _) = _
      rw [lowered, ok_bind]
    · exact fun address below => fresh.frame address below (.inr (Nat.zero_le _))
    · rw [if_pos many]
      rfl
    · have small : alignUp memory.next (aligned layouts depth ty) < 2 ^ 31 := by
        rw [SIZE] at block
        omega
      rw [raised, if_pos many]
      show liftFromMemory layouts depth ty after (asUsize (Int32.ofNat _)) = _
      rw [asUsize_ofNat small]
      exact fresh.reads after (fun _ _ _ => rfl) fun _ _ _ => rfl
  · rw [if_neg many] at room
    obtain ⟨args, after, lowered, next, types, lays⟩ := lowers crosses typed memory room
    refine ⟨_, args, after, measured.flat, ?_, ?_, ?_, ?_⟩
    · rw [lower, measured.flat, ok_bind, if_neg many, lowered]
    · exact fun address below => lays.frame address below (.inr (Nat.zero_le _))
    · rw [if_neg many, types]
    · rw [raised, if_neg many]
      exact lays.reads after (fun _ _ _ => rfl) fun _ _ _ => rfl

/-- A choice of a number and a truth value. -/
def numberOrTruth : Layout :=
  ⟨"Either", [⟨"number", [⟨"value", .int⟩]⟩, ⟨"truth", [⟨"value", .bool⟩]⟩], true⟩

theorem values_survive_truth :
    Survives [numberOrTruth] 2 (.variant 1 [.bool true]) (.aggregate 0) Memory.new
      (raised [numberOrTruth] 2 (.aggregate 0)) := by
  apply values_survive
  · refine ⟨numberOrTruth, rfl, List.cons_ne_nil _ _, ?_⟩
    intro variant listed field inside
    rcases List.mem_pair.mp listed with rfl | rfl
    · rw [List.mem_singleton.mp inside]
      exact trivial
    · rw [List.mem_singleton.mp inside]
      exact trivial
  · exact ⟨numberOrTruth, _, rfl, rfl, by decide, rfl, .cons trivial .nil⟩
  · rw [Room]
    decide

/-! ## What does not survive -/

/-- What the claim that lifting undoes lowering would have: `lift`, whatever the type. -/
def lifted (layouts : List Layout) (depth : Nat) (ty : Ty) (_ : List FlatType)
    (args : List FlatArg) (memory : Memory) : Answer Val :=
  lift layouts memory depth args ty

/-- A record of seventeen truth values. -/
def seventeen : Layout := ⟨"Wide", [⟨"Wide", List.replicate 17 ⟨"flag", .bool⟩⟩], false⟩

/-- What is passed by pointer is not lifted from the pointer. -/
theorem pointer_lost :
    ¬Survives [seventeen] 2 (.record (List.replicate 17 (.bool true))) (.aggregate 0) Memory.new
      (lifted [seventeen] 2 (.aggregate 0)) := by
  rintro ⟨types, args, after, flat, -, -, shapes, back⟩
  obtain rfl : List.replicate 17 .i32 = types := Except.ok.inj flat
  rw [if_pos (by decide)] at shapes
  obtain ⟨arg, rfl, -⟩ := List.map_eq_singleton_iff.mp shapes
  have panics : lifted [seventeen] 2 (.aggregate 0) (List.replicate 17 .i32) [arg] after =
      .error .panics := by
    cases arg <;> rfl
  rw [panics] at back
  cases back

theorem foldl_same {α : Type} {step : Nat → α → Nat} {part : α} {next : Nat}
    (same : step next part = next) (count : Nat) :
    (List.replicate count part).foldl step next = next := by
  induction count with
  | zero => rfl
  | succ count ih => rw [List.replicate_succ, List.foldl_cons, same, ih]

/-- A list of units takes no room, and loses its length where that does not fit. -/
theorem units_lost {count : Nat} (some_ : count ≠ 0) (lost : asUsize (Int32.ofNat count) = 0) :
    ¬Survives [] 2 (.list (List.replicate count .unit)) (.list .unit) Memory.new
      (lifted [] 2 (.list .unit)) := by
  rintro ⟨types, args, after, flat, lowered, -, -, back⟩
  have measured : Measured [] 1 .unit := measured_of rfl rfl rfl (.inl rfl)
  have spends : spent [] 2 (.list (List.replicate count .unit)) (.list .unit) Memory.new.next =
      0 := by
    rw [spent]
    split
    · rfl
    · have block : alignUp Memory.new.next (max (aligned [] 1 .unit) 1) +
          alignUp (sized [] 1 .unit) (max (aligned [] 1 .unit) 1) *
            (List.replicate count Val.unit).length = 0 := by
        have strides : alignUp (sized [] 1 .unit) (max (aligned [] 1 .unit) 1) = 0 := rfl
        rw [strides, Nat.zero_mul]
        rfl
      rw [block]
      exact foldl_same rfl count
  have stored : ∀ value ∈ List.replicate count Val.unit, Stores [] 1 value .unit := by
    intro value listed
    rw [List.eq_of_mem_replicate listed]
    exact @stores [] 1 .unit .unit trivial trivial
  obtain ⟨pointer, last, stride, strode, allocated, -⟩ :=
    allocElements_lays measured stored (by rw [spends]; exact Nat.zero_le _) 0
  have answered : lower [] 2 (.list (List.replicate count .unit)) (.list .unit) Memory.new =
      .ok ([.i32 (Int32.ofNat pointer), .i32 (Int32.ofNat count)], last) := by
    have types : flatten [] 2 (.list .unit) = .ok [.i32, .i32] := rfl
    rw [lower, types, ok_bind, if_neg (by decide), lowerFlat, strode, ok_bind, measured.align,
      ok_bind, allocated, ok_bind, List.length_replicate]
  obtain ⟨rfl, rfl⟩ := Prod.mk.inj (Except.ok.inj (answered.symm.trans lowered))
  have empty : lifted [] 2 (.list .unit) types
      [.i32 (Int32.ofNat pointer), .i32 (Int32.ofNat count)] last = .ok (.list []) := by
    rw [lifted, lift, strode, ok_bind]
    show (loadElements _ .unit stride (asUsize (Int32.ofNat count)) _ >>= _) = _
    rw [lost]
    rfl
  rw [empty] at back
  have none_ : [] = List.replicate count Val.unit := Val.list.inj (Except.ok.inj back)
  exact some_ ((List.replicate_eq_nil_iff _).mp none_.symm)

/-- A choice of as many variants with nothing in them. -/
def many (count : Nat) : Layout := ⟨"Many", List.replicate count ⟨"one", []⟩, true⟩

theorem joined_many {types : Ty → List FlatType} (count : Nat) :
    joined types [] (many count).variants = [] := by
  induction count with
  | zero => rfl
  | succ count ih => exact ih

/-- A discriminant that does not fit is read as another. -/
theorem discriminant_lost {count discriminant : Nat} (tagged : 1 < count)
    (below : discriminant < count) (lost : count ≤ asUsize (Int32.ofNat discriminant)) :
    ¬Survives [many count] 2 (.variant discriminant []) (.aggregate 0) Memory.new
      (lifted [many count] 2 (.aggregate 0)) := by
  rintro ⟨types, args, after, flat, lowered, -, -, back⟩
  have length : (many count).variants.length = count := List.length_replicate
  have tagged' : (many count).isTagged = true := by
    rw [Layout.isTagged, length]
    exact decide_eq_true tagged
  have laid : LaidOut [many count] 1 0 (many count) := by
    refine ⟨rfl, ?_, ?_⟩
    · intro none_
      rw [none_, List.length_nil] at length
      omega
    · intro variant listed field inside
      rw [List.eq_of_mem_replicate listed] at inside
      exact absurd inside List.not_mem_nil
  have types' := laid.flat_tagged tagged'
  rw [joined_many] at types'
  obtain rfl := Except.ok.inj (types'.symm.trans flat)
  have there : (many count).variants[discriminant]? = some ⟨"one", []⟩ := by
    rw [many, List.getElem?_replicate, if_pos below]
  have picked : variantAt (many count) discriminant = .ok ⟨"one", []⟩ := by
    rw [variantAt, there]
    rfl
  have answered : lower [many count] 2 (.variant discriminant []) (.aggregate 0) Memory.new =
      .ok ([.i32 (Int32.ofNat discriminant)], Memory.new) := by
    rw [lower, types', ok_bind, if_neg (by decide), lowerFlat, lowerAggregateFlat,
      laid.layoutAt_eq, ok_bind, if_pos tagged']
    show (variantAt (many count) discriminant >>= _) = _
    rw [picked]
    rfl
  obtain ⟨rfl, rfl⟩ := Prod.mk.inj (Except.ok.inj (answered.symm.trans lowered))
  rw [lifted, lift, liftAggregateFlat, laid.layoutAt_eq, ok_bind, if_pos tagged'] at back
  have past : (many count).variants.length ≤ firstUsize [.i32 (Int32.ofNat discriminant)] := by
    rw [length]
    exact lost
  simp only [if_pos past] at back
  cases back

/-- A choice without variants, and one of a single variant. -/
def never : Layout := ⟨"Never", [], true⟩

def single : Layout := ⟨"Single", [⟨"only", []⟩], true⟩

/-- Lifting what lowering answered does not give the value back where it is passed by pointer,
where a length or a discriminant does not fit an `i32`, where a choice has no variants, and
where the only variant of a choice is given as a variant. -/
theorem values_lost :
    ¬Survives [seventeen] 2 (.record (List.replicate 17 (.bool true))) (.aggregate 0) Memory.new
        (lifted [seventeen] 2 (.aggregate 0)) ∧
      ¬Survives [] 2 (.list (List.replicate 4294967296 .unit)) (.list .unit) Memory.new
          (lifted [] 2 (.list .unit)) ∧
        ¬Survives [many 2147483649] 2 (.variant 2147483648 []) (.aggregate 0) Memory.new
            (lifted [many 2147483649] 2 (.aggregate 0)) ∧
          ¬Survives [never] 2 (.list []) (.list (.aggregate 0)) Memory.new
              (lifted [never] 2 (.list (.aggregate 0))) ∧
            ¬Survives [single] 2 (.variant 0 []) (.aggregate 0) Memory.new
              (lifted [single] 2 (.aggregate 0)) := by
  refine ⟨pointer_lost, units_lost (by decide) (by decide),
    discriminant_lost (by decide) (by decide) (by decide), ?_, ?_⟩
  · rintro ⟨types, args, after, flat, -⟩
    cases flat
  · rintro ⟨types, args, after, -, lowered, -⟩
    cases lowered

end Deed.Abi
