import Deed.Codegen.Marks

/-!
# What a builder marks

Compiling adds the sites of a body to those that are there, and the marks of what it answers are
numbered by them, in order.  The rules here follow the marks through a sequence: what a part
marked is carried along until the parts are put together.
-/

namespace Deed.Codegen

open Deed.Library
open Deed.Mir Deed.Runtime Deed.Wasm

/-! ## Code without a mark -/

theorem entriesAll_flatten (pieces : List (List Ins))
    (unmarked : ∀ piece ∈ pieces, entriesAll piece = []) : entriesAll pieces.flatten = [] := by
  induction pieces with
  | nil => rfl
  | cons piece pieces ih =>
      rw [List.flatten_cons, entriesAll_append, unmarked piece List.mem_cons_self,
        ih fun other listed => unmarked other (List.mem_cons_of_mem _ listed)]
      rfl

@[simp]
theorem entriesAll_write (address : UInt32) (offset : Nat) (value : List Ins) :
    entriesAll (Builder.write address offset value) = entriesAll value := by
  simp [Builder.write, entriesAll_append, entriesAll, entries]

@[simp]
theorem entriesAll_widened (ty : Option ValType) : entriesAll (Builder.widened ty) = [] := by
  rcases ty with _ | _ | _ <;> rfl

@[simp]
theorem entriesAll_narrowed (ty : Option ValType) : entriesAll (Builder.narrowed ty) = [] := by
  rcases ty with _ | _ | _ <;> rfl

@[simp]
theorem entriesAll_allocateFrame (size : Nat) (into : UInt32) :
    entriesAll (Builder.allocateFrame size into) = [] := rfl

@[simp]
theorem entriesAll_frameHeader (frame : UInt32) (effect : EffectId) (held : UInt32) :
    entriesAll (Builder.frameHeader frame effect held) = [] := by
  simp [Builder.frameHeader, entriesAll_append, entriesAll, entries]

@[simp]
theorem entriesAll_frameOperations (frame : UInt32) (operations : List FuncId) :
    entriesAll (Builder.frameOperations frame operations) = [] := by
  rw [Builder.frameOperations, seq]
  refine entriesAll_flatten _ fun piece listed => ?_
  obtain ⟨entry, -, rfl⟩ := List.mem_map.1 listed
  rw [entriesAll_write]
  rfl

/-- A handler search holds what is done where there is no frame, and marks nothing else. -/
@[simp]
theorem entriesAll_search (cursor : UInt32) (effect : EffectId) (exhausted : List Ins) :
    entriesAll (Builder.search cursor effect exhausted) = entriesAll exhausted := by
  simp [Builder.search, entriesAll, entries]

@[simp]
theorem entriesAll_localGet (slot : Option UInt32) :
    entriesAll (slot.toList.map Ins.localGet) = [] := by
  cases slot <;> rfl

@[simp]
theorem entriesAll_localSet (slot : Option UInt32) :
    entriesAll (slot.toList.map Ins.localSet) = [] := by
  cases slot <;> rfl

theorem entriesAll_dropLast {code : List Ins} (unmarked : entriesAll code = []) :
    entriesAll code.dropLast = [] := by
  rcases List.eq_nil_or_concat code with rfl | ⟨front, last, rfl⟩
  · rfl
  · rw [List.concat_eq_append, entriesAll_append] at unmarked
    rw [List.concat_eq_append, List.dropLast_concat]
    exact (List.append_eq_nil_iff.1 unmarked).1

/-! ## What a mark stands for -/

/-- The instruction that a site of a builder is about. -/
inductive Answers (builder : Builder) : SiteDraft → Ins → Prop where
  | call (span : Ast.Span) (func : FuncId) :
      Answers builder ⟨span, .call⟩ (.call (.ofNat func + builder.shift))
  | callIndirect (span : Ast.Span) (typeIndex : UInt32) :
      Answers builder ⟨span, .call⟩ (.callIndirect typeIndex)
  | operator (span : Ast.Span) {op : BinaryOp} {operand : Ty} {before : List Ins} {last : Ins}
      {drafted later : Drafted}
      (chosen : builder.operation op operand drafted = some (.ok (before, last), later)) :
      Answers builder ⟨span, .trap⟩ last
  | fail (span : Ast.Span) : Answers builder ⟨span, .trap⟩ .unreachable

/-- Some marks are those of some sites, which are numbered from a number on. -/
structure Numbered (builder : Builder) (start : Nat) (sites : List SiteDraft)
    (marked : List (UInt32 × Ins)) : Prop where
  order : marked.map Prod.fst = numbers start sites.length
  each : List.Forall₂ (fun site entry => Answers builder site entry.2) sites marked

/-- An action adds the sites that it marks to those that are there, and answers code that marks
what was marked earlier and then these. -/
def Writes (builder : Builder) (earlier : List (UInt32 × Ins)) (action : Emit (List Ins)) : Prop :=
  ∀ drafted code later, action drafted = some (.ok code, later) →
    ∃ sites marked, later.sites = drafted.sites ++ sites ∧
      Numbered builder drafted.sites.length sites marked ∧
      entriesAll code = earlier ++ marked

/-- An action marks nothing, and what it answers is of a kind. -/
def Gives {α : Type} (kind : α → Prop) (action : Emit α) : Prop :=
  ∀ drafted value later, action drafted = some (.ok value, later) →
    later.sites = drafted.sites ∧ kind value

section Rules

variable {builder : Builder} {α β : Type}

theorem Numbered.nil (start : Nat) : Numbered builder start [] [] := ⟨rfl, .nil⟩

theorem Numbered.append {start : Nat} {first second : List SiteDraft}
    {firstMarked secondMarked : List (UInt32 × Ins)}
    (one : Numbered builder start first firstMarked)
    (two : Numbered builder (start + first.length) second secondMarked) :
    Numbered builder start (first ++ second) (firstMarked ++ secondMarked) where
  order := by
    rw [List.map_append, one.order, two.order, List.length_append, numbers_append]
  each := List.rel_append one.each two.each

theorem writes_pure {earlier : List (UInt32 × Ins)} {code : List Ins}
    (marked : entriesAll code = earlier) : Writes builder earlier (pure code) := by
  rintro drafted _ _ ⟨⟩
  exact ⟨[], [], (List.append_nil _).symm, .nil _, by rw [marked, List.append_nil]⟩

theorem writes_fail {earlier : List (UInt32 × Ins)} (what : String) :
    Writes builder earlier (builder.fail what) := nofun

/-- What the first part marked comes before what the rest marks. -/
theorem writes_bind {earlier : List (UInt32 × Ins)} {first : Emit (List Ins)}
    {next : List Ins → Emit (List Ins)} (writes : Writes builder [] first)
    (continues : ∀ code, Writes builder (earlier ++ entriesAll code) (next code)) :
    Writes builder earlier (first >>= next) := by
  intro drafted whole later ran
  obtain ⟨code, between, one, two⟩ := Action.ok_of_bind ran
  obtain ⟨sites, marked, added, numbered, same⟩ := writes drafted code between one
  obtain ⟨more, others, more_, numbered', whole_⟩ := continues code between whole later two
  rw [List.nil_append] at same
  rw [added, List.length_append] at numbered'
  refine ⟨sites ++ more, marked ++ others, ?_, numbered.append numbered', ?_⟩
  · rw [more_, added, List.append_assoc]
  · rw [whole_, same, List.append_assoc]

/-- A part that marks nothing is passed by. -/
theorem writes_after {earlier : List (UInt32 × Ins)} {kind : α → Prop} {first : Emit α}
    {next : α → Emit (List Ins)} (gives : Gives kind first)
    (continues : ∀ value, kind value → Writes builder earlier (next value)) :
    Writes builder earlier (first >>= next) := by
  intro drafted whole later ran
  obtain ⟨value, between, one, two⟩ := Action.ok_of_bind ran
  obtain ⟨same, fits⟩ := gives drafted value between one
  have done := continues value fits between whole later two
  rwa [same] at done

theorem gives_pure {kind : α → Prop} {value : α} (fits : kind value) :
    Gives kind (pure value) := by
  rintro drafted _ _ ⟨⟩
  exact ⟨rfl, fits⟩

theorem gives_fail {kind : α → Prop} (what : String) : Gives kind (builder.fail what) := nofun

theorem gives_bind {middle : α → Prop} {kind : β → Prop} {first : Emit α} {next : α → Emit β}
    (gives : Gives middle first) (continues : ∀ value, middle value → Gives kind (next value)) :
    Gives kind (first >>= next) := by
  intro drafted whole later ran
  obtain ⟨value, between, one, two⟩ := Action.ok_of_bind ran
  obtain ⟨same, fits⟩ := gives drafted value between one
  obtain ⟨same', fits'⟩ := continues value fits between whole later two
  exact ⟨same'.trans same, fits'⟩

theorem gives_require (found : Option α) (what : String) :
    Gives (fun value => found = some value) (builder.require found what) := by
  cases found with
  | none => exact gives_fail what
  | some value => exact gives_pure rfl

/-- Code without a mark, from an action that marks nothing. -/
theorem writes_of_gives {action : Emit (List Ins)}
    (gives : Gives (fun code => entriesAll code = []) action) : Writes builder [] action := by
  intro drafted code later ran
  obtain ⟨same, unmarked⟩ := gives drafted code later ran
  exact ⟨[], [], by rw [same, List.append_nil], .nil _, unmarked⟩

theorem gives_temporary (ty : ValType) : Gives (fun _ => True) (builder.temporary ty) := by
  rintro drafted _ _ ⟨⟩
  exact ⟨rfl, trivial⟩

theorem gives_place (text : String) : Gives (fun _ => True) (Builder.place text) := by
  rintro drafted _ _ ⟨⟩
  exact ⟨rfl, trivial⟩

theorem writes_mark {span : Ast.Span} {role : SpanRole} {inner : Ins}
    (answers : Answers builder ⟨span, role⟩ inner) (unmarked : entries inner = []) :
    Writes builder [] (Builder.mark span role inner) := by
  rintro drafted _ _ ⟨⟩
  refine ⟨[⟨span, role⟩], [(.ofNat drafted.sites.length, inner)], rfl, ⟨rfl, .cons answers .nil⟩,
    ?_⟩
  simp [entriesAll, entries, unmarked]

end Rules

/-! ## One method at a time -/

section Methods

variable {builder : Builder}

theorem gives_helper (helper : Helper) : Gives (fun _ => True) (builder.helper helper) :=
  fun drafted value later ran => ⟨(gives_require _ _ drafted value later ran).1, trivial⟩

theorem gives_failure (code message : String) :
    Gives (fun code => entriesAll code = []) (Builder.failureInstructions code message) :=
  gives_bind (gives_place code) fun _ _ => gives_bind (gives_place message) fun _ _ =>
    gives_pure rfl

theorem gives_trap : Gives (fun code => entriesAll code = []) Builder.trapOnTrue := by
  refine gives_bind (gives_failure _ _) fun failure unmarked => gives_pure ?_
  simp [entriesAll, entries, unmarked]

theorem gives_negate (value : UInt32) :
    Gives (fun code => entriesAll code = []) (Builder.checkedNegate value) := by
  refine gives_bind gives_trap fun trap unmarked => gives_pure ?_
  simp [entriesAll_append, entriesAll, entries, unmarked]

theorem gives_checked (op : BinaryOp) (left right : UInt32) :
    Gives (fun code => entriesAll code = []) (builder.checkedBinary op left right) := by
  have divided (operation : Ins) (unmarked : entries operation = []) :
      Gives (fun code => entriesAll code = [])
        (Builder.checkedBinary.divided left right operation) := by
    refine gives_bind gives_trap fun trap without => gives_pure ?_
    simp [entriesAll_append, entriesAll, entries, without, unmarked]
  cases op
  case addInt =>
    refine gives_bind (gives_temporary _) fun _ _ => gives_bind gives_trap fun trap without =>
      gives_pure ?_
    simp [entriesAll_append, entriesAll, entries, without, Builder.bothCompare]
  case subInt =>
    refine gives_bind (gives_temporary _) fun _ _ => gives_bind gives_trap fun trap without =>
      gives_pure ?_
    simp [entriesAll_append, entriesAll, entries, without, Builder.bothCompare]
  case mulInt =>
    refine gives_bind (gives_temporary _) fun _ _ => gives_bind gives_trap fun trap without =>
      gives_bind (gives_failure _ _) fun failure bare => gives_pure ?_
    simp [entriesAll_append, entriesAll, entries, without, bare]
  case divInt => exact divided _ rfl
  case remInt => exact divided _ rfl
  all_goals exact gives_fail _

theorem gives_allocate (size : Nat) (into : UInt32) :
    Gives (fun code => entriesAll code = []) (builder.allocate size into) :=
  gives_bind (gives_helper _) fun _ _ => gives_pure rfl

theorem gives_call {table : List (Ty × UInt32)} {ty : Ty} (what : String) :
    Gives (fun call => entries call = []) (builder.require (callOf table ty) what) := by
  intro drafted call later ran
  obtain ⟨same, found⟩ := gives_require _ _ drafted call later ran
  obtain ⟨entry, -, rfl⟩ := mem_of_callOf found
  exact ⟨same, rfl⟩

/-- What an operator comes to marks nothing of its own. -/
theorem gives_operation (op : BinaryOp) (operand : Ty) :
    Gives (fun pair : List Ins × Ins => entriesAll pair.1 = [] ∧ entries pair.2 = [])
      (builder.operation op operand) := by
  have ordered (order : Ins) (unmarked : entries order = []) :
      Gives (fun pair : List Ins × Ins => entriesAll pair.1 = [] ∧ entries pair.2 = [])
        (Builder.operation.ordered builder order) :=
    gives_bind (gives_helper _) fun _ _ => gives_pure ⟨rfl, unmarked⟩
  have equality (after wide narrow : Ins) (bare : Int32) (one : entries after = [])
      (two : entries wide = []) (three : entries narrow = []) :
      Gives (fun pair : List Ins × Ins => entriesAll pair.1 = [] ∧ entries pair.2 = [])
        (Builder.operation.equality builder operand after wide narrow bare) := by
    rw [Builder.operation.equality]
    split
    · exact gives_bind (gives_helper _) fun _ _ => gives_pure ⟨rfl, one⟩
    · split
      · refine gives_bind (gives_call _) fun call unmarked => gives_pure ⟨?_, one⟩
        rw [entriesAll, unmarked]
        rfl
      · split
        · exact gives_fail _
        · split
          · exact gives_pure ⟨rfl, two⟩
          · exact gives_pure ⟨rfl, three⟩
          · exact gives_pure ⟨rfl, rfl⟩
  cases op
  case concatStr => exact gives_bind (gives_helper _) fun _ _ => gives_pure ⟨rfl, rfl⟩
  case ltStr => exact ordered _ rfl
  case leStr => exact ordered _ rfl
  case gtStr => exact ordered _ rfl
  case geStr => exact ordered _ rfl
  case eq => exact equality _ _ _ _ rfl rfl rfl
  case ne => exact equality _ _ _ _ rfl rfl rfl
  all_goals exact gives_pure ⟨rfl, rfl⟩

/-- An operator marks the instruction it ends with. -/
theorem writes_binary (op : BinaryOp) (left : Expr) (span : Ast.Span) :
    Writes builder [] (builder.binary op left span) := by
  intro drafted code later ran
  obtain ⟨⟨before, last⟩, between, chosen, rest⟩ := Action.ok_of_bind ran
  obtain ⟨same, unmarked, bare⟩ := gives_operation op _ drafted (before, last) between chosen
  have marks : Writes builder (entriesAll before)
      (Builder.mark span .trap last >>= fun marked => pure (before ++ marked)) := by
    refine writes_bind (writes_mark (.operator span chosen) bare) fun marked => writes_pure ?_
    rw [entriesAll_append]
  rw [unmarked] at marks
  obtain ⟨sites, marked, added, numbered, whole⟩ := marks between code later rest
  rw [same] at added numbered
  exact ⟨sites, marked, added, numbered, whole⟩

theorem gives_hashing (ty : Ty) :
    Gives (fun code => entriesAll code = []) (builder.hashing ty) := by
  rw [Builder.hashing]
  split
  · exact gives_bind (gives_helper _) fun _ _ => gives_pure rfl
  · split
    · refine gives_bind (gives_call _) fun call unmarked => gives_pure ?_
      rw [entriesAll, unmarked]
      rfl
    · split
      · exact gives_fail _
      · split <;> exact gives_pure rfl

theorem gives_runtimeCall (helper : Helper) (ret : Ty) :
    Gives (fun code => entriesAll code = []) (builder.runtimeCall helper ret) := by
  refine gives_bind (gives_helper helper) fun _ _ => gives_pure ?_
  rw [entriesAll, entriesAll_narrowed]
  rfl

theorem writes_storeWord (address : UInt32) (offset : Nat) (ty : Ty) {value : Emit (List Ins)}
    (writes : Writes builder [] value) :
    Writes builder [] (Builder.storeWord address offset ty value) := by
  rw [Builder.storeWord]
  split
  · exact writes_pure rfl
  · refine writes_bind writes fun code => writes_pure ?_
    simp [entriesAll_append]

theorem writes_state (state : Expr) (into : UInt32) {stored value : Emit (List Ins)}
    (writes : Writes builder [] stored) (writes' : Writes builder [] value) :
    Writes builder [] (builder.stateOnTheFrameStack state into stored value) := by
  rw [Builder.stateOnTheFrameStack]
  split
  · refine writes_bind writes fun code => writes_pure ?_
    split <;> simp [entriesAll_append, entriesAll, entries]
  · refine writes_bind writes' fun code => writes_pure ?_
    simp [entriesAll_append, entriesAll, entries]

end Methods

/-! ## Expressions and statements -/

mutual

/-- The marks of an expression are those of the sites that compiling it adds, in order. -/
theorem writes_expr (builder : Builder) (e : Expr) : Writes builder [] (builder.expr e) := by
  cases e with
  | unit => rw [Builder.expr]; exact writes_pure rfl
  | bool value => rw [Builder.expr]; exact writes_pure rfl
  | int value => rw [Builder.expr]; exact writes_pure rfl
  | str text =>
      rw [Builder.expr]
      exact writes_after (gives_place text) fun _ _ => writes_pure rfl
  | local_ slot =>
      rw [Builder.expr]
      exact writes_pure (entriesAll_localGet _)
  | unary op operand =>
      cases op with
      | not =>
          rw [Builder.expr]
          refine writes_bind (writes_expr builder operand) fun value => writes_pure ?_
          simp [entriesAll_append, entriesAll, entries]
      | negate =>
          rw [Builder.expr]
          refine writes_after (gives_temporary _) fun slot _ =>
            writes_bind (writes_expr builder operand) fun value =>
              writes_bind (writes_of_gives (gives_negate slot)) fun negated => writes_pure ?_
          simp [entriesAll_append, entriesAll, entries]
  | binary op left right span =>
      have checked : Writes builder [] (do
          let leftSlot ← builder.temporary .i64
          let rightSlot ← builder.temporary .i64
          let first ← builder.expr left
          let second ← builder.expr right
          let checked ← builder.checkedBinary op leftSlot rightSlot
          pure (first ++ [.localSet leftSlot] ++ second ++ [.localSet rightSlot] ++ checked)) := by
        refine writes_after (gives_temporary _) fun _ _ =>
          writes_after (gives_temporary _) fun _ _ =>
            writes_bind (writes_expr builder left) fun first =>
              writes_bind (writes_expr builder right) fun second =>
                writes_bind (writes_of_gives (gives_checked op _ _)) fun checked =>
                  writes_pure ?_
        simp [entriesAll_append, entriesAll, entries]
      have plain : Writes builder [] (do
          let first ← builder.expr left
          let second ← builder.expr right
          let operation ← builder.binary op left span
          pure (first ++ second ++ operation)) := by
        refine writes_bind (writes_expr builder left) fun first =>
          writes_bind (writes_expr builder right) fun second =>
            writes_bind (writes_binary op left span) fun operation => writes_pure ?_
        simp [entriesAll_append]
      cases op <;> simp only [Builder.expr] <;> first | exact checked | exact plain
  | call func args span =>
      rw [Builder.expr]
      refine writes_bind (writes_exprs builder args) fun values =>
        writes_bind (writes_mark (.call span func) rfl) fun call => writes_pure ?_
      simp [entriesAll_append]
  | callIndirect callee args ret span =>
      rw [Builder.expr]
      refine writes_after (gives_require _ _) fun typeIndex _ =>
        writes_bind (writes_expr builder callee) fun environment =>
          writes_bind (writes_exprs builder args) fun values =>
            writes_bind (writes_expr builder callee) fun code =>
              writes_bind (writes_mark (.callIndirect span typeIndex) rfl) fun call =>
                writes_pure ?_
      simp [entriesAll_append, entriesAll, entries]
  | install effect state operations body ty =>
      rw [Builder.expr]
      refine writes_after (gives_temporary _) fun _ _ => writes_after (gives_temporary _) fun held _ =>
        writes_bind (writes_state state _ (writes_storeFields builder _ state)
          (writes_expr builder state)) fun stateCode =>
          writes_after (gives_temporary _) fun _ _ =>
            writes_bind (writes_block builder body) fun bodyCode => writes_pure ?_
      simp [entriesAll_append, entriesAll, entries]
  | perform effect operation args ret =>
      have performed (cursor : UInt32) (exhausted : List Ins) :
          Writes builder (entriesAll exhausted) (do
          let typeIndex ← builder.signature (builder.shape args ret)
          let values ← builder.exprs args
          pure ([.i32Const (.ofNat HANDLERS), .i64Load 0, .localSet cursor,
              .block none [.loop none (Builder.search cursor effect exhausted)],
              .localGet cursor, .i32WrapI64, .i64Load (.ofNat (2 * WORD))] ++ values ++
            [.localGet cursor, .i32WrapI64, .i64Load (.ofNat (operationOffset operation)),
              .i32WrapI64, .callIndirect typeIndex])) := by
        refine writes_after (gives_require _ _) fun typeIndex _ =>
          writes_bind (writes_exprs builder args) fun values => writes_pure ?_
        simp [entriesAll_append, entriesAll, entries]
      rw [Builder.expr]
      refine writes_after (gives_temporary _) fun cursor _ => ?_
      cases builder.hostImport effect operation with
      | none => exact performed cursor [.unreachable]
      | some index =>
          refine writes_bind (writes_exprs builder args) fun values => ?_
          have answered : entriesAll (values ++ [Ins.call index, Ins.return_]) =
              [] ++ entriesAll values := by
            simp [entriesAll_append, entriesAll, entries]
          rw [← answered]
          exact performed cursor _
  | host name args ret =>
      rw [Builder.expr]
      refine writes_after (gives_require _ _) fun _ _ =>
        writes_bind (writes_exprs builder args) fun values => writes_pure ?_
      simp [entriesAll_append, entriesAll, entries]
  | make layout variant fields =>
      rw [Builder.expr]
      refine writes_after (gives_temporary _) fun _ _ =>
        writes_after (gives_allocate _ _) fun reserved unmarked =>
          writes_bind (writes_storeWords builder _ _ _ fields) fun stored => writes_pure ?_
      split <;> simp [entriesAll_append, entriesAll, entries, unmarked]
  | field value layout variant field =>
      rw [Builder.expr]
      refine writes_bind (writes_expr builder value) fun code => ?_
      split
      · refine writes_pure ?_
        simp [entriesAll_append, entriesAll, entries]
      · refine writes_pure ?_
        simp [entriesAll_append, entriesAll, entries]
  | discriminant value layout =>
      rw [Builder.expr]
      refine writes_bind (writes_expr builder value) fun code => ?_
      split
      · refine writes_pure ?_
        simp [entriesAll_append, entriesAll, entries]
      · refine writes_pure ?_
        simp [entriesAll_append, entriesAll, entries]
  | list element items =>
      rw [Builder.expr]
      refine writes_after (gives_temporary _) fun _ _ =>
        writes_after (gives_allocate _ _) fun reserved unmarked =>
          writes_bind (writes_storeWords builder _ _ _ items) fun stored => writes_pure ?_
      simp [entriesAll_append, entriesAll, entries, unmarked]
  | if_ condition then_ otherwise ty =>
      rw [Builder.expr]
      refine writes_bind (writes_expr builder condition) fun test =>
        writes_bind (writes_block builder then_) fun thenBody =>
          writes_bind (writes_block builder otherwise) fun elseBody => writes_pure ?_
      simp [entriesAll_append, entriesAll, entries]
  | block inner =>
      rw [Builder.expr]
      exact writes_block builder inner
  | hashed value ty =>
      rw [Builder.expr]
      refine writes_bind (writes_expr builder value) fun code =>
        writes_bind (writes_of_gives (gives_hashing ty)) fun last => writes_pure ?_
      split <;> simp [entriesAll_append, entriesAll, entries]
  | runtime name args ret =>
      rw [Builder.expr]
      split
      · refine writes_bind (writes_firstOf builder args) fun values => writes_pure ?_
        simp [entriesAll_append, entriesAll, entries]
      · refine writes_after (gives_require _ _) fun helper _ =>
          writes_bind (writes_widenedArgs builder args) fun values =>
            writes_bind (writes_of_gives (gives_runtimeCall helper ret)) fun call =>
              writes_pure ?_
        simp [entriesAll_append]
  | elementAt list index element =>
      rw [Builder.expr]
      refine writes_bind (writes_expr builder list) fun listCode =>
        writes_bind (writes_expr builder index) fun indexCode => writes_pure ?_
      simp [entriesAll_append, entriesAll, entries]

theorem writes_exprs (builder : Builder) (es : List Expr) :
    Writes builder [] (builder.exprs es) := by
  cases es with
  | nil => rw [Builder.exprs]; exact writes_pure rfl
  | cons first rest =>
      rw [Builder.exprs]
      refine writes_bind (writes_expr builder first) fun value =>
        writes_bind (writes_exprs builder rest) fun values => writes_pure ?_
      simp [entriesAll_append]

theorem writes_firstOf (builder : Builder) (es : List Expr) :
    Writes builder [] (builder.firstOf es) := by
  cases es with
  | nil => rw [Builder.firstOf]; exact writes_fail _
  | cons first rest => rw [Builder.firstOf]; exact writes_expr builder first

theorem writes_widenedArgs (builder : Builder) (es : List Expr) :
    Writes builder [] (builder.widenedArgs es) := by
  cases es with
  | nil => rw [Builder.widenedArgs]; exact writes_pure rfl
  | cons first rest =>
      rw [Builder.widenedArgs]
      refine writes_bind (writes_expr builder first) fun value =>
        writes_bind (writes_widenedArgs builder rest) fun values => writes_pure ?_
      simp [entriesAll_append]

theorem writes_storeWords (builder : Builder) (address : UInt32) (offset : Nat → Nat)
    (index : Nat) (es : List Expr) :
    Writes builder [] (builder.storeWords address offset index es) := by
  cases es with
  | nil => rw [Builder.storeWords]; exact writes_pure rfl
  | cons first rest =>
      rw [Builder.storeWords]
      refine writes_bind (writes_storeWord _ _ _ (writes_expr builder first)) fun stored =>
        writes_bind (writes_storeWords builder address offset (index + 1) rest) fun more =>
          writes_pure ?_
      simp [entriesAll_append]

theorem writes_storeFields (builder : Builder) (into : UInt32) (e : Expr) :
    Writes builder [] (builder.storeFields into e) := by
  cases e
  case make layout variant fields =>
    rw [Builder.storeFields]
    exact writes_storeWords builder into _ 0 fields
  all_goals
    rw [Builder.storeFields]
    · exact writes_pure rfl
    · exact fun _ _ _ => Expr.noConfusion

theorem writes_block (builder : Builder) (b : Block) : Writes builder [] (builder.block b) := by
  cases b with
  | mk body value =>
      rw [Builder.block]
      refine writes_bind (writes_stmts builder body) fun code =>
        writes_bind (writes_expr builder value) fun last => writes_pure ?_
      simp [entriesAll_append]

theorem writes_stmt (builder : Builder) (s : Stmt) : Writes builder [] (builder.stmt s) := by
  cases s with
  | assign slot value =>
      rw [Builder.stmt]
      refine writes_bind (writes_expr builder value) fun code => writes_pure ?_
      simp [entriesAll_append]
  | discard value =>
      rw [Builder.stmt]
      refine writes_bind (writes_expr builder value) fun code => writes_pure ?_
      split <;> simp [entriesAll_append, entriesAll, entries]
  | return_ value =>
      rw [Builder.stmt]
      refine writes_bind (writes_expr builder value) fun code => writes_pure ?_
      simp [entriesAll_append, entriesAll, entries]
  | fail code message span =>
      rw [Builder.stmt]
      refine writes_after (gives_failure code message) fun failure unmarked =>
        writes_bind (writes_mark (.fail span) rfl) fun stop => writes_pure ?_
      rw [entriesAll_append, entriesAll_dropLast unmarked]
  | while_ condition body =>
      rw [Builder.stmt]
      refine writes_bind (writes_expr builder condition) fun test =>
        writes_bind (writes_stmts builder body) fun turn => writes_pure ?_
      simp [entriesAll_append, entriesAll, entries]
  | setField object layout variant field value =>
      rw [Builder.stmt]
      split
      · exact writes_expr builder value
      · refine writes_bind (writes_expr builder object) fun address =>
          writes_bind (writes_expr builder value) fun code => writes_pure ?_
        simp [entriesAll_append, entriesAll, entries]

theorem writes_stmts (builder : Builder) (body : List Stmt) :
    Writes builder [] (builder.stmts body) := by
  cases body with
  | nil => rw [Builder.stmts]; exact writes_pure rfl
  | cons first rest =>
      rw [Builder.stmts]
      refine writes_bind (writes_stmt builder first) fun code =>
        writes_bind (writes_stmts builder rest) fun more => writes_pure ?_
      simp [entriesAll_append]

end

end Deed.Codegen
