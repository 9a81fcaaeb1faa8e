import Deed.Codegen.Compile
import Deed.Codegen.HashAgree
import Deed.Lowering.MatchSound

/-!
# A compiled `match`

What the chain of tests that a `match` is lowered to does when it runs: the first arm whose
test passes is entered, with every name that its pattern binds in a slot of its own.
-/

namespace Deed.Codegen

open Deed.Ast (Ident MatchArm Pattern)
open Deed.Eval (Code DefId)
open Deed.Library
open Deed.Lowering
open Deed.Mir Deed.Runtime Deed.Wasm
open Hashing (produced)

/-! ## Slots -/

section Slots

variable {builder : Builder}

theorem slot_some {local_ : Local} {index : UInt32} (found : builder.slot local_ = some index) :
    ∃ ty, builder.function.locals[local_]? = some ty ∧ (valType ty).isSome = true ∧
      index = .ofNat ((builder.function.locals.take local_).filterMap valType).length := by
  unfold Builder.slot at found
  cases typed : builder.function.locals[local_]? with
  | none =>
      rw [typed] at found
      exact absurd found.symm (Option.some_ne_none index)
  | some ty =>
      simp only [typed] at found
      by_cases sized : (valType ty).isSome = true
      · rw [if_pos sized] at found
        exact ⟨ty, rfl, sized, (Option.some.inj found).symm⟩
      · rw [if_neg sized] at found
        exact absurd found.symm (Option.some_ne_none index)

theorem slot_of_typed {local_ : Local} {ty : Ty} {kind : ValType}
    (typed : builder.function.locals[local_]? = some ty) (sized : valType ty = some kind) :
    builder.slot local_ =
      some (.ofNat ((builder.function.locals.take local_).filterMap valType).length) := by
  unfold Builder.slot
  simp only [typed]
  rw [if_pos (by rw [sized]; rfl)]

theorem slot_none {local_ : Local} {ty : Ty}
    (typed : builder.function.locals[local_]? = some ty) (bare : valType ty = none) :
    builder.slot local_ = none := by
  unfold Builder.slot
  simp only [typed]
  rw [if_neg (by rw [bare]; exact Bool.false_ne_true)]

/-- What comes before a slot that takes space takes less of it than what comes after. -/
theorem rank_lt {types : List Ty} {first second : Nat} {ty : Ty} (less : first < second)
    (typed : types[first]? = some ty) (sized : (valType ty).isSome = true) :
    ((types.take first).filterMap valType).length <
      ((types.take second).filterMap valType).length := by
  rcases Option.isSome_iff_exists.1 sized with ⟨kind, is⟩
  have inside := (List.getElem?_eq_some_iff.1 typed).1
  have split : types.take (first + 1) = types.take first ++ [ty] := by
    rw [List.take_add_one, typed]
    rfl
  have longer : ((types.take (first + 1)).filterMap valType).length ≤
      ((types.take second).filterMap valType).length :=
    ((List.take_sublist_take_left less).filterMap valType).length_le
  rw [split, List.filterMap_append, List.length_append, List.filterMap_cons, is] at longer
  exact longer

/-- Two slots that take space are apart. -/
theorem slot_apart {first second : Local} {left right : UInt32}
    (counted : builder.function.locals.length < 2 ^ 32)
    (one : builder.slot first = some left) (two : builder.slot second = some right)
    (apart : first ≠ second) : left.toNat ≠ right.toNat := by
  have short : ∀ local_ : Local,
      ((builder.function.locals.take local_).filterMap valType).length < 2 ^ 32 := by
    intro local_
    apply Nat.lt_of_le_of_lt _ counted
    exact ((List.length_filterMap_le _ _).trans (List.length_take_le' _ _))
  rcases slot_some one with ⟨ty, typed, sized, rfl⟩
  rcases slot_some two with ⟨other, typed', sized', rfl⟩
  rw [UInt32.toNat_ofNat_of_lt' (short first), UInt32.toNat_ofNat_of_lt' (short second)]
  rcases Nat.lt_or_gt_of_ne apart with before | after
  · exact Nat.ne_of_lt (rank_lt before typed sized)
  · exact Nat.ne_of_gt (rank_lt after typed' sized')

end Slots

/-! ## Code that leaves values -/

/-- Code that leaves some values on the stack, and everything else as it was. -/
def Leaves (engine : Engine) (memory : Memory) (locals : List Value) (code : List Ins)
    (values : List Value) : Prop :=
  ∀ (rest : List Ins) (stack : List Value) (post : Outcome → Prop),
    Runs engine (code ++ rest) ⟨memory, locals, stack⟩ post ↔
      Runs engine rest ⟨memory, locals, values ++ stack⟩ post

/-- An expression that is compiled the same way wherever it stands. -/
def Emits (builder : Builder) (expr : Expr) (code : List Ins) : Prop :=
  ∀ drafted, builder.expr expr drafted = some (.ok code, drafted)

section Reading

variable {builder : Builder} {engine : Engine} {memory : Memory} {locals : List Value}

theorem Leaves.append {first second : List Ins} {values more : List Value}
    (leaves : Leaves engine memory locals first values)
    (next : ∀ (rest : List Ins) (stack : List Value) (post : Outcome → Prop),
      Runs engine (second ++ rest) ⟨memory, locals, values ++ stack⟩ post ↔
        Runs engine rest ⟨memory, locals, more ++ stack⟩ post) :
    Leaves engine memory locals (first ++ second) more := by
  intro rest stack post
  rw [List.append_assoc, leaves, next]

theorem Holds.ofBool {program : Program} {datum : Datum} {word : Int}
    (holds : Holds program memory datum .bool word) : word = 0 ∨ word = 1 := by
  cases datum <;> simp [Holds] at holds
  next yes =>
    rw [holds]
    cases yes with
    | true => exact Or.inr rfl
    | false => exact Or.inl rfl

theorem emits_local {held : Local} {index : UInt32} (found : builder.slot held = some index) :
    Emits builder (.local_ held) [.localGet index] := by
  intro drafted
  rw [Builder.expr, found]
  rfl

theorem leaves_local {index : UInt32} {value : Value}
    (held : locals[index.toNat]? = some value) :
    Leaves engine memory locals [.localGet index] [value] := by
  intro rest stack post
  rw [List.singleton_append, runs_localGet, held]
  rfl

theorem runs_drop {rest : List Ins} {value : Value} {stack : List Value}
    {post : Outcome → Prop} :
    Runs engine (.drop :: rest) ⟨memory, locals, value :: stack⟩ post ↔
      Runs engine rest ⟨memory, locals, stack⟩ post := by
  rw [runs_plain rfl]
  rfl

/-- Reading a field of what is at an address leaves what the field holds. -/
theorem leaves_field {value : Expr} {code : List Ins} {word : Int} {id : LayoutId}
    {variant index : Nat} {data : List Datum} {held : Variant} {field : Field} {inner : Datum}
    (small : memory.size ≤ 2 ^ 30) (emits : Emits builder value code)
    (leaves : Leaves engine memory locals code [word64 word])
    (holds : Holds builder.program memory (.made variant data) (.aggregate id) word)
    (found : (builder.program.layout id).variants[variant]? = some held)
    (declared : held.fields[index]? = some field) (there : data[index]? = some inner) :
    ∃ code word, Emits builder (.field value id variant index) code ∧
      Leaves engine memory locals code (produced field.ty word) ∧
      Holds builder.program memory inner field.ty word := by
  rcases holds.ofAggregate with
    ⟨_, _, variant_, same, found', address, rfl, room, -, row⟩
  cases same
  rw [← Option.some.inj (found.symm.trans found')] at row
  have typed : (held.fields.map Field.ty)[index]? = some field.ty := by
    rw [List.getElem?_map, declared]
    rfl
  rcases row.get there typed with ⟨read, reads, holds⟩
  have inside := read_inside reads
  have offset : (fieldOffset (builder.program.layout id).isTagged index).toNat =
      (if (builder.program.layout id).isTagged then WORD else 0) + index * WORD := by
    rw [WORD_eq] at inside ⊢
    rw [fieldOffset, WORD_eq, UInt32.toNat_ofNat_of_lt']
    · cases (builder.program.layout id).isTagged
      · simp
      · simp only [if_true]
        omega
    · show _ < 2 ^ 32
      cases tagged : (builder.program.layout id).isTagged <;> simp only [tagged] at inside ⊢ <;>
        simp at inside ⊢ <;> omega
  rw [Nat.add_assoc, ← offset] at reads
  have loads : ∀ (rest : List Ins) (stack : List Value) (post : Outcome → Prop),
      Runs engine ([.i32WrapI64,
          .i64Load (fieldOffset (builder.program.layout id).isTagged index)] ++ rest)
        ⟨memory, locals, [word64 address] ++ stack⟩ post ↔
      Runs engine rest ⟨memory, locals, word64 read :: stack⟩ post := by
    intro rest stack post
    rw [List.cons_append, List.singleton_append, List.singleton_append, runs_i32WrapI64,
      runs_i64Load (by omega), reads]
    rfl
  have shape : ∀ drafted, builder.expr (.field value id variant index) drafted =
      some (.ok ((valType field.ty).elim (code ++ [.drop]) fun width => code ++ [.i32WrapI64,
          .i64Load (fieldOffset (builder.program.layout id).isTagged index)] ++
          Builder.narrowed (some width)), drafted) := by
    intro drafted
    have type : builder.tyOf (.field value id variant index) = field.ty := by
      rw [Builder.tyOf, tyIn, List.getD_eq_getElem?_getD, List.getD_eq_getElem?_getD, found,
        Option.getD_some, declared, Option.getD_some]
    rw [Builder.expr, Action.run_bind_ok (emits drafted), type]
    cases valType field.ty <;> rfl
  cases kind : field.ty with
  | unit =>
      refine ⟨code ++ [.drop], read, ?_, ?_, by rw [← kind]; exact holds⟩
      · intro drafted
        rw [shape, kind]
        rfl
      · apply leaves.append
        intro rest stack post
        exact runs_drop
  | bool =>
      refine ⟨code ++ [.i32WrapI64,
        .i64Load (fieldOffset (builder.program.layout id).isTagged index)] ++ [.i32WrapI64],
        read, ?_, ?_, by rw [← kind]; exact holds⟩
      · intro drafted
        rw [shape, kind]
        rfl
      · have word : Leaves engine memory locals (code ++ [.i32WrapI64,
            .i64Load (fieldOffset (builder.program.layout id).isTagged index)])
            [word64 read] := leaves.append loads
        apply word.append
        intro rest stack post
        rw [kind] at holds
        rw [produced]
        show Runs engine ([.i32WrapI64] ++ rest) _ post ↔ _
        rcases holds.ofBool with rfl | rfl
        · rw [List.singleton_append, runs_plain rfl]
          rfl
        · rw [List.singleton_append, runs_plain rfl]
          rfl
  | _ =>
      refine ⟨code ++ [.i32WrapI64,
        .i64Load (fieldOffset (builder.program.layout id).isTagged index)], read, ?_, ?_,
        by rw [← kind]; exact holds⟩
      · intro drafted
        rw [shape, kind]
        exact congrArg (fun whole => some (Except.ok whole, drafted)) (List.append_nil _)
      · exact leaves.append loads

theorem leads_nil {program : Program} {ty last : Ty} {datum part : Datum} {path : FieldPath}
    (leads : Leads program ty datum path last part) (ends : path = []) : ty = last := by
  cases leads with
  | here ty datum => rfl
  | field found declared there leads => exact absurd ends (List.cons_ne_nil _ _)

/-- Reading along a path leaves what it leads to, and the type that is read is the type of
what is there. -/
theorem leaves_path (small : memory.size ≤ 2 ^ 30) {ty last : Ty} {datum part : Datum}
    {path : FieldPath} (leads : Leads builder.program ty datum path last part) :
    ∀ {read : Expr × Ty} {code : List Ins} {word : Int}, Emits builder read.1 code →
    Leaves engine memory locals code (produced ty word) →
    Holds builder.program memory datum ty word → (path = [] → read.2 = last) →
    ∃ code word,
      Emits builder (path.foldl (fun read step =>
        (.field read.1 step.1 step.2.1 step.2.2,
          ((Lowering.fieldsOf builder.program step.1 step.2.1).getD step.2.2 ⟨"", .unit⟩).ty))
        read).1 code ∧
      (path.foldl (fun read step =>
        (.field read.1 step.1 step.2.1 step.2.2,
          ((Lowering.fieldsOf builder.program step.1 step.2.1).getD step.2.2 ⟨"", .unit⟩).ty))
        read).2 = last ∧
      Leaves engine memory locals code (produced last word) ∧
      Holds builder.program memory part last word := by
  induction leads with
  | here ty datum =>
      intro read code word emits leaves holds typed
      exact ⟨code, word, emits, typed rfl, leaves, holds⟩
  | field found declared there leads ih =>
      intro read code word emits leaves holds typed
      rcases leaves_field small emits leaves holds found declared there with
        ⟨further, next, emits', leaves', holds'⟩
      rw [List.foldl_cons]
      apply ih emits' leaves' holds'
      intro ends
      rw [← leads_nil leads ends]
      show ((Lowering.fieldsOf builder.program _ _).getD _ ⟨"", .unit⟩).ty = _
      rw [fieldsOf_eq found, List.getD_eq_getElem?_getD, declared, Option.getD_some]

variable (engine) in
/-- What an arm reads of the scrutinee in a slot. -/
theorem leaves_readPath (small : memory.size ≤ 2 ^ 30) {id : LayoutId} {last : Ty}
    {datum part : Datum} {path : FieldPath} {held : Local} {index : UInt32} {word : Int}
    (slot : builder.slot held = some index)
    (there : locals[index.toNat]? = some (word64 word))
    (holds : Holds builder.program memory datum (.aggregate id) word) (through : path ≠ [])
    (leads : Leads builder.program (.aggregate id) datum path last part) :
    ∃ code word, Emits builder (readPath builder.program held path).1 code ∧
      (readPath builder.program held path).2 = last ∧
      Leaves engine memory locals code (produced last word) ∧
      Holds builder.program memory part last word :=
  leaves_path small leads (emits_local slot) (leaves_local there) holds
    fun ends => absurd ends through

end Reading

/-! ## What an arm binds -/

section Binding

variable {Rest : Type} {builder : Builder} {engine : Engine} {memory : Memory}
  {resolution : Ident → Option DefId}

/-- Every slot that takes space has a place among the locals. -/
def Room (builder : Builder) (locals : List Value) : Prop :=
  ∀ local_ index, builder.slot local_ = some index → index.toNat < locals.length

/-- A slot has what a path of the scrutinee leads to. -/
def Kept (builder : Builder) (memory : Memory) (locals : List Value) (id : LayoutId)
    (datum : Datum) (slot : Local) (path : FieldPath) : Prop :=
  ∃ ty part word, builder.function.locals[slot]? = some ty ∧
    Leads builder.program (.aggregate id) datum path ty part ∧
    Holds builder.program memory part ty word ∧
    ∀ index, builder.slot slot = some index →
      (locals[index.toNat]?).toList = produced ty word

/-- The locals below a slot are as they were. -/
def Below (builder : Builder) (count : Nat) (before after : List Value) : Prop :=
  ∀ local_ index, local_ < count → builder.slot local_ = some index →
    after[index.toNat]? = before[index.toNat]?

theorem prefix_get {α : Type} {first whole : List α} {index : Nat} {a : α}
    (starts : first <+: whole) (found : first[index]? = some a) : whole[index]? = some a := by
  rcases starts with ⟨rest, rfl⟩
  rw [List.getElem?_append_left (List.getElem?_eq_some_iff.1 found).1]
  exact found

/-- Storing what was read into a slot of its own. -/
theorem leaves_assign {slot : Local} {ty : Ty} {value : Expr} {code : List Ins} {word : Int}
    {locals : List Value} (drafted : Drafted) (room : Room builder locals)
    (typed : builder.function.locals[slot]? = some ty) (emits : Emits builder value code)
    (leaves : Leaves engine memory locals code (produced ty word)) :
    ∃ code locals', builder.stmt (.assign slot value) drafted = some (.ok code, drafted) ∧
      locals'.length = locals.length ∧
      (∀ other, (∀ index, builder.slot slot = some index → index.toNat ≠ other) →
        locals'[other]? = locals[other]?) ∧
      (∀ index, builder.slot slot = some index →
        (locals'[index.toNat]?).toList = produced ty word) ∧
      ∀ (rest : List Ins) (stack : List Value) (post : Outcome → Prop),
        Runs engine (code ++ rest) ⟨memory, locals, stack⟩ post ↔
          Runs engine rest ⟨memory, locals', stack⟩ post := by
  have shape : builder.stmt (.assign slot value) drafted =
      some (.ok (code ++ (builder.slot slot).toList.map .localSet), drafted) := by
    rw [Builder.stmt, Action.run_bind_ok (emits drafted)]
    rfl
  cases kind : valType ty with
  | none =>
      have bare : ty = .unit := by
        cases ty with
        | unit => rfl
        | _ => exact absurd kind (by rintro ⟨⟩)
      subst bare
      have nowhere := slot_none typed kind
      rw [nowhere] at shape
      refine ⟨_, locals, shape, rfl, fun _ _ => rfl, ?_, ?_⟩
      · intro index found
        rw [nowhere] at found
        exact absurd found.symm (Option.some_ne_none index)
      · intro rest stack post
        rw [Option.toList_none, List.map_nil, List.append_nil, leaves]
        rfl
  | some width =>
      have found := slot_of_typed typed kind
      generalize UInt32.ofNat ((builder.function.locals.take slot).filterMap valType).length =
        index at found
      have inside := room slot index found
      have whole : ∃ value, produced ty word = [value] := by
        cases ty with
        | unit => exact absurd kind (by rintro ⟨⟩)
        | _ => exact ⟨_, rfl⟩
      rcases whole with ⟨pushed, whole⟩
      rw [found] at shape
      refine ⟨_, locals.set index.toNat pushed, shape, List.length_set, ?_, ?_, ?_⟩
      · intro other apart
        rw [List.getElem?_set_ne (apart index found)]
      · intro other same
        rw [found] at same
        rw [← Option.some.inj same, List.getElem?_set_self inside, whole]
        rfl
      · intro rest stack post
        rw [List.append_assoc, leaves, whole]
        show Runs engine (.localSet index :: rest) ⟨memory, locals, pushed :: stack⟩ post ↔ _
        rw [runs_localSet, if_pos inside]

/-- The lowering state after a slot was handed out for a name. -/
def noted (resolution : Ident → Option DefId) (before : Lowering Rest) (ty : Ty)
    (name : Ident) : Lowering Rest :=
  { before with
    locals := before.locals ++ [ty]
    slots :=
      match resolution name with
      | some definition => Assoc.insert before.slots definition before.locals.length
      | none => before.slots }

theorem bindParts_cons {program : Program} {held : Local} {path : FieldPath} {name : Ident}
    {rest : List (FieldPath × Ident)} {before after : Lowering Rest} {stmts : List Stmt}
    (lowered : bindParts program resolution held ((path, name) :: rest) before =
      some (.ok stmts, after)) :
    ∃ more, bindParts program resolution held rest
        (noted resolution before (readPath program held path).2 name) = some (.ok more, after) ∧
      stmts = .assign before.locals.length (readPath program held path).1 :: more := by
  rw [bindParts] at lowered
  rcases Action.ok_of_bind lowered with ⟨slot, between, added, lowered⟩
  rcases Prod.mk.inj (Option.some.inj added) with ⟨same, rfl⟩
  rw [← Except.ok.inj same] at lowered
  cases found : resolution name with
  | some definition =>
      simp only [found] at lowered
      rw [Action.run_change_bind] at lowered
      rcases Action.ok_of_bind lowered with ⟨more, last, ran, ends⟩
      rcases Prod.mk.inj (Option.some.inj ends) with ⟨same, rfl⟩
      refine ⟨more, ?_, (Except.ok.inj same).symm⟩
      rw [noted, found]
      exact ran
  | none =>
      simp only [found] at lowered
      rcases Action.ok_of_bind lowered with ⟨more, last, ran, ends⟩
      rcases Prod.mk.inj (Option.some.inj ends) with ⟨same, rfl⟩
      refine ⟨more, ?_, (Except.ok.inj same).symm⟩
      rw [noted, found]
      exact ran

theorem bindParts_grows {program : Program} {held : Local} :
    ∀ (bindings : List (FieldPath × Ident)) {before after : Lowering Rest} {stmts : List Stmt},
    bindParts program resolution held bindings before = some (.ok stmts, after) →
    before.locals <+: after.locals
  | [], before, after, stmts, lowered => by
      rcases Prod.mk.inj (Option.some.inj lowered) with ⟨-, rfl⟩
      exact List.prefix_refl _
  | (path, name) :: rest, before, after, stmts, lowered => by
      rcases bindParts_cons lowered with ⟨more, further, -⟩
      exact (List.prefix_append _ _).trans (bindParts_grows rest further)

/-- What reading the fields of an arm comes to: every name that is bound has a slot of its
own with what its path leads to, and the slots before are as they were. -/
structure Stored (builder : Builder) (engine : Engine) (memory : Memory) (id : LayoutId)
    (datum : Datum) (resolution : Ident → Option DefId) (bindings : List (FieldPath × Ident))
    (before after : Lowering Rest) (locals locals' : List Value) (code : List Ins) :
    Prop where
  length : locals'.length = locals.length
  below : Below builder before.locals.length locals locals'
  leaves : ∀ (rest : List Ins) (stack : List Value) (post : Outcome → Prop),
    Runs engine (code ++ rest) ⟨memory, locals, stack⟩ post ↔
      Runs engine rest ⟨memory, locals', stack⟩ post
  bound : ∀ definition, (∃ binding ∈ bindings, resolution binding.2 = some definition) →
    ∃ path name slot, (path, name) ∈ bindings ∧ resolution name = some definition ∧
      Assoc.find? after.slots definition = some slot ∧
      Kept builder memory locals' id datum slot path
  others : ∀ definition, (∀ binding ∈ bindings, resolution binding.2 ≠ some definition) →
    Assoc.find? after.slots definition = Assoc.find? before.slots definition

variable (engine) in
/-- The slots of an arm's names are filled in the order of the names. -/
theorem bindParts_stored (small : memory.size ≤ 2 ^ 30)
    (counted : builder.function.locals.length < 2 ^ 32) {id : LayoutId} {datum : Datum}
    {held : Local} {index : UInt32} {word : Int} (slot : builder.slot held = some index)
    (holds : Holds builder.program memory datum (.aggregate id) word) :
    ∀ (bindings : List (FieldPath × Ident)) {before after : Lowering Rest} {stmts : List Stmt}
    {locals : List Value} {drafted drafted' : Drafted} {code : List Ins},
    Room builder locals → held < before.locals.length →
    locals[index.toNat]? = some (word64 word) → (∀ binding ∈ bindings, binding.1 ≠ []) →
    (∀ binding ∈ bindings, ∃ ty part,
      Leads builder.program (.aggregate id) datum binding.1 ty part) →
    bindParts builder.program resolution held bindings before = some (.ok stmts, after) →
    after.locals <+: builder.function.locals →
    builder.stmts stmts drafted = some (.ok code, drafted') →
    ∃ locals', Stored builder engine memory id datum resolution bindings before after locals
      locals' code
  | [], before, after, stmts, locals, drafted, drafted', code, _, _, _, _, _, lowered, _,
      compiled => by
      rcases Prod.mk.inj (Option.some.inj lowered) with ⟨same, rfl⟩
      rw [← Except.ok.inj same] at compiled
      rcases Prod.mk.inj (Option.some.inj compiled) with ⟨same, rfl⟩
      rw [← Except.ok.inj same]
      refine ⟨locals, rfl, fun _ _ _ _ => rfl, fun _ _ _ => Iff.rfl, ?_, fun _ _ => rfl⟩
      rintro definition ⟨binding, listed, -⟩
      exact absurd listed List.not_mem_nil
  | (path, name) :: rest, before, after, stmts, locals, drafted, drafted', code, room, first,
      there, through, leads, lowered, kept, compiled => by
      rcases leads (path, name) List.mem_cons_self with ⟨ty, part, leads_⟩
      rcases leaves_readPath engine small slot there holds
        (through (path, name) List.mem_cons_self) leads_ with
        ⟨reading, read, emits, typed, leaves, holds'⟩
      rcases bindParts_cons lowered with ⟨more, further, rfl⟩
      rw [typed] at further
      rw [Builder.stmts] at compiled
      rcases Action.ok_of_bind compiled with ⟨assign, between, compiled', compiled⟩
      rcases Action.ok_of_bind compiled with ⟨later, last, compiled'', ends⟩
      rcases Prod.mk.inj (Option.some.inj ends) with ⟨same, rfl⟩
      have here : builder.function.locals[before.locals.length]? = some ty := by
        apply prefix_get ((bindParts_grows rest further).trans kept)
        rw [noted, List.getElem?_append_right (Nat.le_refl _), Nat.sub_self]
        rfl
      rcases leaves_assign drafted room here emits leaves with
        ⟨stored, locals₁, compiled₁, length, frame, filled, runs⟩
      rcases Prod.mk.inj (Option.some.inj (compiled₁.symm.trans compiled')) with ⟨same₁, rfl⟩
      have room₁ : Room builder locals₁ := by
        intro local_ other found
        rw [length]
        exact room local_ other found
      have kept₁ : ∀ local_ other, local_ < before.locals.length →
          builder.slot local_ = some other → locals₁[other.toNat]? = locals[other.toNat]? := by
        intro local_ other less found
        apply frame
        intro taken slots
        exact slot_apart counted slots found (Nat.ne_of_gt less)
      have grown : (noted resolution before ty name).locals.length = before.locals.length + 1 :=
        List.length_append
      rcases bindParts_stored small counted slot holds rest room₁
        (by rw [grown]; exact Nat.lt_succ_of_lt first)
        ((kept₁ held index first slot).trans there)
        (fun binding listed => through binding (List.mem_cons_of_mem _ listed))
        (fun binding listed => leads binding (List.mem_cons_of_mem _ listed)) further kept
        compiled'' with ⟨locals', stored'⟩
      rw [← Except.ok.inj same, ← Except.ok.inj same₁]
      refine ⟨locals', stored'.length.trans length, ?_, ?_, ?_, ?_⟩
      · intro local_ other less found
        rw [stored'.below local_ other (by rw [grown]; exact Nat.lt_succ_of_lt less) found]
        exact kept₁ local_ other less found
      · intro rest stack post
        rw [List.append_assoc, runs, stored'.leaves]
      · rintro definition bound
        by_cases again : ∃ binding ∈ rest, resolution binding.2 = some definition
        · rcases stored'.bound definition again with ⟨along, called, at_, listed, more⟩
          exact ⟨along, called, at_, List.mem_cons_of_mem _ listed, more⟩
        · have head : resolution name = some definition := by
            rcases bound with ⟨binding, listed, resolved⟩
            rcases List.mem_cons.1 listed with rfl | later
            · exact resolved
            · exact absurd ⟨binding, later, resolved⟩ again
          refine ⟨path, name, before.locals.length, List.mem_cons_self, head, ?_,
            ty, part, read, here, leads_, holds', ?_⟩
          · rw [stored'.others definition fun binding listed resolved =>
              again ⟨binding, listed, resolved⟩, noted, head]
            exact Assoc.find?_insert_self _ _ _
          · intro other found
            rw [stored'.below before.locals.length other (by rw [grown]; exact Nat.lt_succ_self _)
              found]
            exact filled other found
      · intro definition unbound
        rw [stored'.others definition fun binding listed =>
          unbound binding (List.mem_cons_of_mem _ listed), noted]
        have apart := unbound (path, name) List.mem_cons_self
        cases resolved : resolution name with
        | none => rfl
        | some other =>
            apply Assoc.find?_insert_ne
            rintro rfl
            exact apart resolved

end Binding

/-! ## Which arm is entered -/

section Testing

variable {builder : Builder} {engine : Engine} {memory : Memory} {locals : List Value}

/-- An expression compiles to code that leaves whether something is so. -/
def Tests (builder : Builder) (engine : Engine) (memory : Memory) (locals : List Value)
    (expr : Expr) (holds : Prop) [Decidable holds] : Prop :=
  ∀ drafted, ∃ code after, builder.expr expr drafted = some (.ok code, after) ∧
    Leaves engine memory locals code [boolean holds]

variable (engine) in
/-- The variant that is there, as compiled code reads it. -/
theorem leaves_discriminant (small : memory.size ≤ 2 ^ 30) {id : LayoutId} {held : Local}
    {index : UInt32} {word : Int} {variant : Nat} {data : List Datum}
    (slot : builder.slot held = some index) (there : locals[index.toNat]? = some (word64 word))
    (holds : Holds builder.program memory (.made variant data) (.aggregate id) word) :
    ∃ code, Emits builder (.discriminant (.local_ held) id) code ∧
      Leaves engine memory locals code [word64 variant] := by
  rcases holds.ofAggregate with ⟨_, _, variant_, same, found, address, rfl, room, tag, row⟩
  cases same
  cases tagged : (builder.program.layout id).isTagged with
  | true =>
      refine ⟨[.localGet index] ++ [.i32WrapI64, .i64Load 0], ?_, ?_⟩
      · intro drafted
        rw [Builder.expr, Action.run_bind_ok (emits_local slot drafted), if_pos tagged]
        rfl
      · apply (leaves_local there).append
        intro rest stack post
        rw [List.cons_append, List.singleton_append, List.singleton_append, runs_i32WrapI64,
          runs_i64Load (by omega)]
        show (memory.read (address + 0)).elim _ _ ↔ _
        rw [Nat.add_zero, tag tagged]
        rfl
  | false =>
      refine ⟨[.localGet index] ++ [.drop, .i64Const 0], ?_, ?_⟩
      · intro drafted
        rw [Builder.expr, Action.run_bind_ok (emits_local slot drafted),
          if_neg (by rw [tagged]; exact Bool.false_ne_true)]
        rfl
      · apply (leaves_local there).append
        intro rest stack post
        rw [List.cons_append, List.singleton_append, List.singleton_append, runs_drop,
          untagged_variant tagged found]
        exact runs_i64Const

variable (engine) in
theorem tests_isOne (small : memory.size ≤ 2 ^ 30) {id : LayoutId} {held : Local}
    {index : UInt32} {word : Int} {variant listed : Nat} {data : List Datum}
    (slot : builder.slot held = some index) (there : locals[index.toNat]? = some (word64 word))
    (holds : Holds builder.program memory (.made variant data) (.aggregate id) word)
    (inside : listed < (builder.program.layout id).variants.length) :
    Tests builder engine memory locals (isOne id held listed) (variant = listed) := by
  intro drafted
  rcases leaves_discriminant engine small slot there holds with
    ⟨code, emits, leaves⟩
  have emits' : Emits builder (.int (.ofNat listed)) [.i64Const (.ofNat listed)] :=
    fun drafted => rfl
  refine ⟨code ++ [.i64Const (.ofNat listed)] ++
    [.marked (.ofNat drafted.sites.length) .i64Eq],
    { drafted with sites := drafted.sites ++ [⟨⟨0, 0⟩, .trap⟩] }, ?_, ?_⟩
  · show (builder.expr (.discriminant (.local_ held) id) >>= fun first =>
      builder.expr (.int (.ofNat listed)) >>= fun second => _) drafted = _
    rw [Action.run_bind_ok (emits drafted), Action.run_bind_ok (emits' drafted)]
    rfl
  · rcases holds.ofAggregate with ⟨_, _, variant_, same, found, -⟩
    cases same
    have counted := builder.program.variants_lt id
    have below := (List.getElem?_eq_some_iff.1 found).1
    have fits : Fits64 (variant : Int) := by constructor <;> omega
    have fits' : Fits64 (listed : Int) := by constructor <;> omega
    have alike : ((variant : Int) = (listed : Int)) ↔ variant = listed := Int.ofNat_inj
    intro rest stack post
    rw [List.append_assoc, List.append_assoc, leaves, List.singleton_append, runs_i64Const,
      List.singleton_append, runs_marked]
    show Runs engine (.i64Eq :: rest) ⟨memory, locals, word64 listed :: word64 variant :: stack⟩
      post ↔ _
    rw [runs_i64Eq fits fits', boolean_congr alike]
    rfl

theorem tests_or {first second : Expr} {p q : Prop} [Decidable p] [Decidable q]
    (span : Ast.Span) (one : Tests builder engine memory locals first p)
    (two : Tests builder engine memory locals second q) :
    Tests builder engine memory locals (.binary .or first second span) (p ∨ q) := by
  intro drafted
  rcases one drafted with ⟨code, between, compiled, leaves⟩
  rcases two between with ⟨code', after, compiled', leaves'⟩
  refine ⟨code ++ code' ++ [.marked (.ofNat after.sites.length) .i32Or],
    { after with sites := after.sites ++ [⟨span, .trap⟩] }, ?_, ?_⟩
  · show (builder.expr first >>= fun first => builder.expr second >>= fun second => _)
      drafted = _
    rw [Action.run_bind_ok compiled, Action.run_bind_ok compiled']
    rfl
  · intro rest stack post
    rw [List.append_assoc, List.append_assoc, leaves, leaves', List.singleton_append,
      runs_marked]
    exact runs_i32Or_boolean

/-- The tests for some variants, one after another. -/
theorem tests_fold (small : memory.size ≤ 2 ^ 30) {id : LayoutId} {held : Local}
    {index : UInt32} {word : Int} {variant : Nat} {data : List Datum}
    (slot : builder.slot held = some index) (there : locals[index.toNat]? = some (word64 word))
    (holds : Holds builder.program memory (.made variant data) (.aggregate id) word) :
    ∀ (variants : List Nat), (∀ listed ∈ variants,
      listed < (builder.program.layout id).variants.length) →
    ∀ (before : Expr) (p : Prop) [Decidable p], Tests builder engine memory locals before p →
    ∃ condition, variants.foldl (fun condition variant =>
        some (match condition with
          | none => isOne id held variant
          | some before => .binary .or before (isOne id held variant) ⟨0, 0⟩)) (some before) =
        some condition ∧
      Tests builder engine memory locals condition (p ∨ variant ∈ variants) := by
  intro variants
  induction variants with
  | nil =>
      intro inside before p _ tests
      refine ⟨before, rfl, ?_⟩
      intro drafted
      rcases tests drafted with ⟨code, after, compiled, leaves⟩
      refine ⟨code, after, compiled, ?_⟩
      have same : boolean (p ∨ variant ∈ ([] : List Nat)) = boolean p :=
        boolean_congr (or_iff_left List.not_mem_nil)
      rw [same]
      exact leaves
  | cons first rest ih =>
      intro inside before p _ tests
      rw [List.foldl_cons]
      have both := tests_or ⟨0, 0⟩ tests
        (tests_isOne engine small slot there holds
          (inside first List.mem_cons_self))
      rcases ih (fun listed present => inside listed (List.mem_cons_of_mem _ present)) _ _ both
        with ⟨condition, folded, tests'⟩
      refine ⟨condition, folded, ?_⟩
      intro drafted
      rcases tests' drafted with ⟨code, after, compiled, leaves⟩
      refine ⟨code, after, compiled, ?_⟩
      have same : boolean (p ∨ variant ∈ first :: rest) =
          boolean ((p ∨ variant = first) ∨ variant ∈ rest) :=
        boolean_congr (by rw [List.mem_cons, or_assoc])
      rw [same]
      exact leaves

variable (engine) in
/-- The condition of an arm says whether the variant that is there is one of its own. -/
theorem tests_discriminates (small : memory.size ≤ 2 ^ 30) {id : LayoutId} {held : Local}
    {index : UInt32} {word : Int} {variant : Nat} {data : List Datum}
    (slot : builder.slot held = some index) (there : locals[index.toNat]? = some (word64 word))
    (holds : Holds builder.program memory (.made variant data) (.aggregate id) word)
    {variants : List Nat} (inside : ∀ listed ∈ variants,
      listed < (builder.program.layout id).variants.length) {condition : Expr}
    (tested : discriminates builder.program variants id held = some condition) :
    Tests builder engine memory locals condition (variant ∈ variants) := by
  unfold discriminates at tested
  by_cases every : variants.length = (variantsOf builder.program id).length
  · rw [if_pos every] at tested
    exact absurd tested.symm (Option.some_ne_none condition)
  rw [if_neg every] at tested
  cases variants with
  | nil => exact absurd tested.symm (Option.some_ne_none condition)
  | cons first rest =>
      have one := tests_isOne engine small slot there holds
        (inside first List.mem_cons_self)
      rcases tests_fold small slot there holds rest
        (fun listed present => inside listed (List.mem_cons_of_mem _ present)) _ _ one with
        ⟨other, folded, tests⟩
      rw [List.foldl_cons] at tested
      have same : other = condition := Option.some.inj (folded.symm.trans tested)
      intro drafted
      rcases tests drafted with ⟨code, after, compiled, leaves⟩
      refine ⟨code, after, same ▸ compiled, ?_⟩
      have alike : boolean (variant ∈ first :: rest) =
          boolean (variant = first ∨ variant ∈ rest) := boolean_congr List.mem_cons
      rw [alike]
      exact leaves

/-- Whether an arm is entered on a variant, if no arm before it is: its test lists the
variant, or it has no test. -/
def applies (program : Program) (id : LayoutId) (variant : Nat) (pattern : Pattern) : Bool :=
  match armPattern program id pattern with
  | .ok (variants, _) =>
      decide (variants.length = (variantsOf program id).length) || variants.isEmpty ||
        variants.contains variant
  | .error _ => false

theorem discriminates_none {program : Program} {id : LayoutId} {held : Local}
    {variants : List Nat} (bare : discriminates program variants id held = none) :
    variants.length = (variantsOf program id).length ∨ variants = [] := by
  unfold discriminates at bare
  by_cases every : variants.length = (variantsOf program id).length
  · exact Or.inl every
  rw [if_neg every] at bare
  cases variants with
  | nil => exact Or.inr rfl
  | cons first rest =>
      have some_ : ∀ (more : List Nat) (before : Expr), ∃ condition,
          more.foldl (fun condition variant =>
            some (match condition with
              | none => isOne id held variant
              | some before => .binary .or before (isOne id held variant) ⟨0, 0⟩))
            (some before) = some condition := by
        intro more
        induction more with
        | nil => exact fun before => ⟨before, rfl⟩
        | cons next more ih => exact fun before => ih _
      rcases some_ rest (isOne id held first) with ⟨condition, folded⟩
      rw [List.foldl_cons] at bare
      exact absurd (folded.symm.trans bare) (Option.some_ne_none condition)

theorem discriminates_some {program : Program} {id : LayoutId} {held : Local}
    {variants : List Nat} {condition : Expr}
    (tested : discriminates program variants id held = some condition) :
    variants.length ≠ (variantsOf program id).length ∧ variants ≠ [] := by
  constructor
  · intro every
    rw [discriminates, if_pos every] at tested
    exact absurd tested.symm (Option.some_ne_none condition)
  · rintro rfl
    unfold discriminates at tested
    by_cases every : ([] : List Nat).length = (variantsOf program id).length
    · rw [if_pos every] at tested
      exact absurd tested.symm (Option.some_ne_none condition)
    · rw [if_neg every] at tested
      exact absurd tested.symm (Option.some_ne_none condition)

theorem applies_iff {program : Program} {id : LayoutId} {variant : Nat} {pattern : Pattern}
    {variants : List Nat} {bindings : List (FieldPath × Ident)}
    (lowered : armPattern program id pattern = .ok (variants, bindings)) :
    applies program id variant pattern = true ↔
      (variants.length = (variantsOf program id).length ∨ variants = []) ∨
        variant ∈ variants := by
  rw [applies, lowered]
  simp

end Testing

section Chain

variable {Rest : Type} {builder : Builder} {engine : Engine} {memory : Memory}
  {resolution : Ident → Option DefId} {expr : Ast.Expr → Lower Rest Expr}

/-- An arm as it stands in the compiled chain: what its names are bound by and what its body
came to, and that running the chain is running them. -/
def Enters (builder : Builder) (engine : Engine) (resolution : Ident → Option DefId)
    (expr : Ast.Expr → Lower Rest Expr) (id : LayoutId) (held : Local) (ty : Ty)
    (memory : Memory) (locals : List Value) (arm : MatchArm) (first last : Lowering Rest)
    (code : List Ins) : Prop :=
  ∃ (variants : List Nat) (bindings : List (FieldPath × Ident)) (before after later : Lowering Rest)
    (stmts : List Stmt) (value : Expr) (drafted between further : Drafted)
    (binding body : List Ins) (depth : Nat),
    armPattern builder.program id arm.pattern = .ok (variants, bindings) ∧
    first.locals <+: before.locals ∧
    bindParts builder.program resolution held bindings before = some (.ok stmts, after) ∧
    expr arm.body after = some (.ok value, later) ∧ later.locals <+: last.locals ∧
    builder.stmts stmts drafted = some (.ok binding, between) ∧
    builder.expr value between = some (.ok body, further) ∧
    ∀ post, Runs engine code ⟨memory, locals, []⟩ post ↔
      Runs engine (binding ++ body) ⟨memory, locals, []⟩ fun outcome =>
        post ((Outcome.leave (valType ty) [])^[depth] outcome)

theorem then_nil {outcome : Outcome} {post : Outcome → Prop} :
    outcome.Then engine [] post ↔ post outcome := by
  cases outcome with
  | normal machine => exact runs_nil
  | _ => exact Iff.rfl

/-- An `if` that ends some code is the arm that its condition chooses. -/
theorem runs_last_if {condition : List Ins} {holds : Prop} [Decidable holds]
    {locals : List Value} (tests : Leaves engine memory locals condition [boolean holds])
    {result : Option ValType} {then_ otherwise : List Ins} {post : Outcome → Prop} :
    Runs engine (condition ++ [.if_ result then_ otherwise]) ⟨memory, locals, []⟩ post ↔
      Runs engine (if holds then then_ else otherwise) ⟨memory, locals, []⟩ fun outcome =>
        post (outcome.leave result []) := by
  rw [tests]
  show Runs engine [.if_ result then_ otherwise] ⟨memory, locals, boolean holds :: []⟩ post ↔ _
  rw [runs_if]
  constructor
  · exact fun runs => runs.mono fun outcome => then_nil.1
  · exact fun runs => runs.mono fun outcome => then_nil.2

theorem block_ok {stmts : List Stmt} {value : Expr} {drafted last : Drafted}
    {code : List Ins} (compiled : builder.block (.mk stmts value) drafted = some (.ok code, last)) :
    ∃ first second between, builder.stmts stmts drafted = some (.ok first, between) ∧
      builder.expr value between = some (.ok second, last) ∧ code = first ++ second := by
  rw [Builder.block] at compiled
  rcases Action.ok_of_bind compiled with ⟨first, between, one, compiled⟩
  rcases Action.ok_of_bind compiled with ⟨second, later, two, ends⟩
  rcases Prod.mk.inj (Option.some.inj ends) with ⟨same, rfl⟩
  exact ⟨first, second, between, one, two, (Except.ok.inj same).symm⟩

theorem if_ok {condition : Expr} {then_ otherwise : Block} {ty : Ty} {drafted last : Drafted}
    {code : List Ins} (compiled : builder.block (.of (.if_ condition then_ otherwise ty)) drafted =
      some (.ok code, last)) :
    ∃ test first second one two, builder.expr condition drafted = some (.ok test, one) ∧
      builder.block then_ one = some (.ok first, two) ∧
      builder.block otherwise two = some (.ok second, last) ∧
      code = test ++ [.if_ (valType ty) first second] := by
  rcases block_ok compiled with ⟨nothing, whole, between, empty, compiled, rfl⟩
  rcases Prod.mk.inj (Option.some.inj empty) with ⟨same, rfl⟩
  rw [← Except.ok.inj same]
  rw [Builder.expr] at compiled
  rcases Action.ok_of_bind compiled with ⟨test, one, tested, compiled⟩
  rcases Action.ok_of_bind compiled with ⟨first, two, entered, compiled⟩
  rcases Action.ok_of_bind compiled with ⟨second, later, passed, ends⟩
  rcases Prod.mk.inj (Option.some.inj ends) with ⟨same, rfl⟩
  exact ⟨test, first, second, one, two, tested, entered, passed, (Except.ok.inj same).symm⟩

/-- The parts that an arm and the arms after it were lowered to. -/
theorem chainArms_cons {program : Program} {id : LayoutId} {held : Local} {ty : Ty}
    {span : Ast.Span} {arm : MatchArm} {rest : List MatchArm} {first last : Lowering Rest}
    {chain : Block}
    (lowered : chainArms program resolution expr id held ty span (arm :: rest) first =
      some (.ok chain, last)) :
    ∃ after before between variants bindings stmts value,
      chainArms program resolution expr id held ty span rest first = some (.ok after, before) ∧
      armPattern program id arm.pattern = .ok (variants, bindings) ∧
      bindParts program resolution held bindings before = some (.ok stmts, between) ∧
      expr arm.body between = some (.ok value, last) ∧
      chain = link program id held ty variants (.mk stmts value) after := by
  rw [chainArms] at lowered
  rcases Action.ok_of_bind lowered with ⟨after, before, chained, further⟩
  rcases Action.ok_of_bind further with ⟨⟨variants, bindings⟩, same, lifted, reading⟩
  have pattern : armPattern program id arm.pattern = .ok (variants, bindings) ∧ same = before := by
    unfold lift at lifted
    cases found : armPattern program id arm.pattern with
    | ok named =>
        rw [found] at lifted
        rcases Prod.mk.inj (Option.some.inj lifted) with ⟨one, rfl⟩
        rw [Except.ok.inj one]
        exact ⟨rfl, rfl⟩
    | error why =>
        rw [found] at lifted
        cases (Prod.mk.inj (Option.some.inj lifted)).1
  rcases pattern with ⟨pattern, rfl⟩
  rcases Action.ok_of_bind reading with ⟨stmts, between, bound, valued⟩
  rcases Action.ok_of_bind valued with ⟨value, later, body, ends⟩
  rcases Prod.mk.inj (Option.some.inj ends) with ⟨whole, rfl⟩
  exact ⟨after, _, between, variants, bindings, stmts, value, chained, pattern, bound, body,
    (Except.ok.inj whole).symm⟩

section Grows

variable (grows : ∀ written state lowered later,
  expr written state = some (.ok lowered, later) → state.locals <+: later.locals)

include grows

theorem chainArms_grows {program : Program} {id : LayoutId} {held : Local} {ty : Ty}
    {span : Ast.Span} {arms : List MatchArm} {first last : Lowering Rest} {chain : Block}
    (lowered : chainArms program resolution expr id held ty span arms first =
      some (.ok chain, last)) : first.locals <+: last.locals := by
  induction arms generalizing last chain with
  | nil =>
      rcases Prod.mk.inj (Option.some.inj lowered) with ⟨-, rfl⟩
      exact List.prefix_refl _
  | cons arm rest ih =>
      rcases chainArms_cons lowered with
        ⟨after, before, between, variants, bindings, stmts, value, chained, -, bound, body, -⟩
      exact ((ih chained).trans (bindParts_grows bindings bound)).trans (grows _ _ _ _ body)

variable (engine) in
/-- The first arm that applies is entered. -/
theorem chainArms_enters (small : memory.size ≤ 2 ^ 30) {id : LayoutId} {held : Local}
    {ty : Ty} {span : Ast.Span} {index : UInt32} {word : Int} {variant : Nat}
    {data : List Datum} {locals : List Value} (slot : builder.slot held = some index)
    (there : locals[index.toNat]? = some (word64 word))
    (holds : Holds builder.program memory (.made variant data) (.aggregate id) word) :
    ∀ (arms : List MatchArm) {first last : Lowering Rest} {chain : Block}
    {drafted drafted' : Drafted} {code : List Ins} {position : Nat} {arm : MatchArm},
    chainArms builder.program resolution expr id held ty span arms first =
      some (.ok chain, last) →
    builder.block chain drafted = some (.ok code, drafted') → arms[position]? = some arm →
    applies builder.program id variant arm.pattern = true →
    (∀ earlier other, earlier < position → arms[earlier]? = some other →
      applies builder.program id variant other.pattern = false) →
    Enters builder engine resolution expr id held ty memory locals arm first last code
  | [], _, _, _, _, _, _, position, arm, _, _, at_, _, _ =>
      absurd at_.symm (Option.some_ne_none arm)
  | head :: rest, first, last, chain, drafted, drafted', code, position, arm, lowered, compiled,
      at_, enters, passed => by
      rcases chainArms_cons lowered with
        ⟨after, before, between, variants, bindings, stmts, value, chained, pattern, bound, body,
          rfl⟩
      have grown := chainArms_grows grows chained
      rw [link] at compiled
      rcases position with _ | position
      · rw [← Option.some.inj at_] at enters ⊢
        cases tested : discriminates builder.program variants id held with
        | none =>
            simp only [tested] at compiled
            rcases block_ok compiled with ⟨one, two, middle, stored, valued, rfl⟩
            exact ⟨variants, bindings, before, between, last, stmts, value, _, _, _, one, two, 0,
              pattern, grown, bound, body, List.prefix_refl _, stored, valued,
              fun post => Iff.rfl⟩
        | some condition =>
            simp only [tested] at compiled
            rcases if_ok compiled with ⟨test, taken, other, d, d', testing, taking, -, rfl⟩
            rcases block_ok taking with ⟨one, two, middle, stored, valued, rfl⟩
            rcases tests_discriminates engine small slot there holds
              (armPattern_inside _ pattern) tested drafted with ⟨same, more, tests, leaves⟩
            rcases Prod.mk.inj (Option.some.inj (tests.symm.trans testing)) with ⟨alike, -⟩
            rw [Except.ok.inj alike] at leaves
            have listed : variant ∈ variants := by
              rcases (applies_iff pattern).1 enters with (every | none_) | listed
              · exact absurd every (discriminates_some tested).1
              · exact absurd none_ (discriminates_some tested).2
              · exact listed
            refine ⟨variants, bindings, before, between, last, stmts, value, _, _, _, one, two,
              1, pattern, grown, bound, body, List.prefix_refl _, stored, valued, ?_⟩
            intro post
            rw [runs_last_if leaves, if_pos listed]
            rfl
      · have skipped := passed 0 head (Nat.succ_pos position) rfl
        cases tested : discriminates builder.program variants id held with
        | none =>
            rw [(applies_iff pattern).2 (Or.inl (discriminates_none tested))] at skipped
            exact absurd skipped.symm Bool.false_ne_true
        | some condition =>
            simp only [tested] at compiled
            rcases if_ok compiled with ⟨test, taken, other, d, d', testing, -, passing, rfl⟩
            rcases tests_discriminates engine small slot there holds
              (armPattern_inside _ pattern) tested drafted with ⟨same, more, tests, leaves⟩
            rcases Prod.mk.inj (Option.some.inj (tests.symm.trans testing)) with ⟨alike, -⟩
            rw [Except.ok.inj alike] at leaves
            have absent : variant ∉ variants := by
              intro listed
              rw [(applies_iff pattern).2 (Or.inr listed)] at skipped
              exact absurd skipped.symm Bool.false_ne_true
            rcases chainArms_enters small slot there holds rest chained passing at_ enters
              (fun earlier other less found =>
                passed (earlier + 1) other (Nat.succ_lt_succ less) found) with
              ⟨variants', bindings', before', between', later', stmts', value', one, two, three,
                binding, whole, depth, pattern', grown', bound', body', ends, stored, valued,
                runs⟩
            refine ⟨variants', bindings', before', between', later', stmts', value', one, two,
              three, binding, whole, depth + 1, pattern', grown', bound', body', ?_, stored,
              valued, ?_⟩
            · exact (ends.trans (bindParts_grows bindings bound)).trans (grows _ _ _ _ body)
            · intro post
              rw [runs_last_if leaves, if_neg absent, runs]
              simp only [Function.iterate_succ_apply']

end Grows

end Chain

end Deed.Codegen
