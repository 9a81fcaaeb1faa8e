import Deed.Wasm.Checked

/-!
# What validation accepts

A module is valid when the checker accepts it and its imports, its exports, its data, its
pages and its indirect calls refer to something that is there: the checker looks at the
bodies and the table only.
-/

namespace Deed.Wasm

variable {module : Module} {context : Context}

/-! ## Indirect calls -/

mutual

/-- Whether there is a call through the table. -/
def Ins.indirect : Ins → Bool
  | .marked _ inner => inner.indirect
  | .block _ body => Ins.anyIndirect body
  | .loop _ body => Ins.anyIndirect body
  | .if_ _ then_ otherwise => Ins.anyIndirect then_ || Ins.anyIndirect otherwise
  | .callIndirect _ => true
  | _ => false

def Ins.anyIndirect : List Ins → Bool
  | [] => false
  | instruction :: rest => instruction.indirect || Ins.anyIndirect rest

end

/-- The context of a module that has a table. -/
def Context.withTable (context : Context) : Context := { context with table := true }

theorem withTable_inside {label : List ValType} :
    (context.inside label).withTable = context.withTable.inside label := rfl

theorem withTable_self (table : context.table = true) : context.withTable = context := by
  rw [Context.withTable, ← table]

/-- Nothing but a call through the table asks for it. -/
theorem HasType.retable {instruction : Ins} {operands results : List ValType}
    (plain : instruction.nested = false) (direct : instruction.indirect = false)
    (typed : HasType context instruction operands results) (table : Bool) :
    HasType { context with table := table } instruction operands results := by
  cases typed with
  | plain takes => exact .plain takes
  | unreachable => exact .unreachable
  | drop => exact .drop
  | localGet found => exact .localGet found
  | localSet found => exact .localSet found
  | localTee found => exact .localTee found
  | br found => exact @HasType.br { context with table := table } _ _ _ _ found
  | brIf found => exact @HasType.brIf { context with table := table } _ _ found
  | return_ => exact @HasType.return_ { context with table := table } _ _
  | call found => exact @HasType.call { context with table := table } _ _ found
  | callIndirect => exact absurd direct (by simp [Ins.indirect])
  | marked | block | loop | if_ => exact absurd plain (by simp [Ins.nested])

mutual

/-- A table matters to nothing but the calls through it. -/
theorem hasType_withTable (instruction : Ins) {context : Context}
    {operands results : List ValType} (table : context.table = false) :
    HasType context instruction operands results ↔
      HasType context.withTable instruction operands results ∧ instruction.indirect = false := by
  cases instruction with
  | marked site inner =>
      have ih := @hasType_withTable inner context operands results table
      constructor
      · intro typed
        cases typed with
        | plain takes => cases takes <;> simp_all
        | marked typed =>
            rcases ih.mp typed with ⟨typed, none⟩
            exact ⟨.marked typed, none⟩
      · rintro ⟨typed, none⟩
        cases typed with
        | plain takes => cases takes <;> simp_all
        | marked typed => exact .marked (ih.mpr ⟨typed, none⟩)
  | block result body =>
      have ih := @hasTypes_withTable body (context.inside result.toList) [] result.toList table
      rw [withTable_inside] at ih
      constructor
      · intro typed
        cases typed with
        | plain takes => cases takes <;> simp_all
        | block typed =>
            rcases ih.mp typed with ⟨typed, none⟩
            exact ⟨.block typed, none⟩
      · rintro ⟨typed, none⟩
        cases typed with
        | plain takes => cases takes <;> simp_all
        | block typed => exact .block (ih.mpr ⟨typed, none⟩)
  | loop result body =>
      have ih := @hasTypes_withTable body (context.inside []) [] result.toList table
      rw [withTable_inside] at ih
      constructor
      · intro typed
        cases typed with
        | plain takes => cases takes <;> simp_all
        | loop typed =>
            rcases ih.mp typed with ⟨typed, none⟩
            exact ⟨.loop typed, none⟩
      · rintro ⟨typed, none⟩
        cases typed with
        | plain takes => cases takes <;> simp_all
        | loop typed => exact .loop (ih.mpr ⟨typed, none⟩)
  | if_ result then_ otherwise =>
      have first := @hasTypes_withTable then_ (context.inside result.toList) [] result.toList table
      have second := @hasTypes_withTable otherwise (context.inside result.toList) [] result.toList
        table
      rw [withTable_inside] at first second
      constructor
      · intro typed
        rcases typed.of_if with ⟨rfl, rfl, one, two⟩
        rcases first.mp one with ⟨one, none⟩
        rcases second.mp two with ⟨two, none_⟩
        exact ⟨.if_ one two, Bool.or_eq_false_iff.mpr ⟨none, none_⟩⟩
      · rintro ⟨typed, none⟩
        rcases typed.of_if with ⟨rfl, rfl, one, two⟩
        rcases Bool.or_eq_false_iff.mp none with ⟨none, none_⟩
        exact .if_ (first.mpr ⟨one, none⟩) (second.mpr ⟨two, none_⟩)
  | callIndirect typeIndex =>
      constructor
      · intro typed
        cases typed with
        | plain takes => cases takes <;> simp_all
        | callIndirect there => exact absurd (table.symm.trans there) Bool.false_ne_true
      · rintro ⟨-, none⟩
        exact absurd none.symm Bool.false_ne_true
  | _ =>
      constructor
      · intro typed
        exact ⟨typed.retable rfl rfl true, rfl⟩
      · rintro ⟨typed, -⟩
        have back : { context.withTable with table := false } = context := by
          rw [← table]
          rfl
        exact back ▸ typed.retable rfl rfl false

theorem hasTypes_withTable (body : List Ins) {context : Context} {before after : List ValType}
    (table : context.table = false) :
    HasTypes context body before after ↔
      HasTypes context.withTable body before after ∧ Ins.anyIndirect body = false := by
  cases body with
  | nil =>
      constructor
      · rintro ⟨⟩
        exact ⟨.nil, rfl⟩
      · rintro ⟨⟨⟩, -⟩
        exact .nil
  | cons instruction rest =>
      constructor
      · rintro ⟨⟩
        rename_i operands results stack first more
        rcases (hasType_withTable instruction table).mp first with ⟨first, none⟩
        rcases (hasTypes_withTable rest table).mp more with ⟨more, none_⟩
        exact ⟨.cons first more, Bool.or_eq_false_iff.mpr ⟨none, none_⟩⟩
      · rintro ⟨typed, none⟩
        rcases Bool.or_eq_false_iff.mp none with ⟨none, none_⟩
        cases typed with
        | cons first more =>
            exact .cons ((hasType_withTable instruction table).mpr ⟨first, none⟩)
              ((hasTypes_withTable rest table).mpr ⟨more, none_⟩)

end

/-! ## Whole modules -/

/-- The checks of a list all pass, or one of them stops with what is not valid. -/
theorem forM_check {α : Type} {check : α → Check Unit} {elements : List α} {good : α → Prop}
    (each : ∀ element ∈ elements, (good element ∧ check element = .ok ()) ∨
      (¬good element ∧ ∃ why, check element = .error (.invalid why))) :
    ((∀ element ∈ elements, good element) ∧ elements.forM check = .ok ()) ∨
    ((¬∀ element ∈ elements, good element) ∧
      ∃ why, elements.forM check = .error (.invalid why)) := by
  induction elements with
  | nil => exact Or.inl ⟨nofun, rfl⟩
  | cons element rest ih =>
      have unfolded : (element :: rest).forM check = check element >>= fun _ => rest.forM check :=
        List.forM_cons
      rw [unfolded]
      rcases each element List.mem_cons_self with ⟨fine, passes⟩ | ⟨bad, why, stops⟩
      · rw [passes]
        rcases ih fun one there => each one (List.mem_cons_of_mem _ there) with
          ⟨all, ok⟩ | ⟨none, why, error⟩
        · exact Or.inl ⟨List.forall_mem_cons.mpr ⟨fine, all⟩, ok⟩
        · exact Or.inr ⟨fun all => none (List.forall_mem_cons.mp all).2, why, error⟩
      · rw [stops]
        exact Or.inr ⟨fun all => bad (List.forall_mem_cons.mp all).1, why, rfl⟩

/-- The signature of a function is there, and its body keeps to it, tables apart. -/
def Module.Typed (module : Module) (func : Func) : Prop :=
  ∃ signature, module.types[func.typeIndex.toNat]? = some signature ∧
    HasTypes (module.context signature func).withTable func.body [] signature.results.reverse

theorem named_bind {α β : Type} {at_ : Nat} {checked : Check α} {next : α → Check β} :
    (module.named at_ checked >>= fun value => module.named at_ (next value)) =
      module.named at_ (checked >>= next) := by
  rcases checked with (why | expected) | value <;> rfl

theorem check_func (signature : FuncType) (func : Func) (at_ : Nat) :
    (HasTypes (module.context signature func).withTable func.body [] signature.results.reverse ∧
      func.check module signature at_ = .ok ()) ∨
    (¬HasTypes (module.context signature func).withTable func.body [] signature.results.reverse ∧
      ∃ why, func.check module signature at_ = .error (.invalid why)) := by
  have fits : Fits module (signature.params ++ func.locals)
      (module.context signature func).withTable ⟨signature.results, signature.results, [], []⟩ :=
    ⟨rfl, rfl, rfl, rfl, rfl, rfl, rfl⟩
  have unfolded : func.check module signature at_ =
      (module.named at_ ((Checker.instructions module (signature.params ++ func.locals) func.body
        ((⟨signature.results, signature.results, [], []⟩ : Place).checker false [])) >>=
        Checker.popFrame)) >>= fun _ => pure () := by
    rw [← named_bind, bind_assoc]
    rfl
  rw [unfolded]
  rcases finished (@instructions_agree module _ func.body _ _ false [] fits) with
    ⟨typed, left⟩ | ⟨untyped, why, left⟩
  · rw [left]
    exact Or.inl ⟨typed, rfl⟩
  · rw [left]
    exact Or.inr ⟨untyped, _, rfl⟩

theorem checkFunc_typed (at_ : Nat) (func : Func) :
    (module.Typed func ∧ module.checkFunc at_ func = .ok ()) ∨
    (¬module.Typed func ∧ ∃ why, module.checkFunc at_ func = .error (.invalid why)) := by
  rw [Module.Typed, Module.checkFunc]
  cases module.types[func.typeIndex.toNat]? with
  | none =>
      right
      constructor
      · rintro ⟨signature, found, -⟩
        exact absurd found (by simp)
      · exact ⟨_, rfl⟩
  | some signature =>
      rcases @check_func module signature func at_ with ⟨typed, passes⟩ | ⟨untyped, stops⟩
      · exact Or.inl ⟨⟨signature, rfl, typed⟩, passes⟩
      · right
        refine ⟨?_, stops⟩
        rintro ⟨other, found, typed⟩
        rw [← Option.some.inj found] at typed
        exact untyped typed

theorem checkEntry_there (index : UInt32) :
    (index.toNat < module.functionCount ∧ module.checkEntry index = .ok ()) ∨
    (¬index.toNat < module.functionCount ∧
      ∃ why, module.checkEntry index = .error (.invalid why)) := by
  rw [Module.functionCount, Module.checkEntry]
  by_cases there : module.imports.length + module.funcs.length ≤ index.toNat
  · rw [if_pos there]
    exact Or.inr ⟨by omega, _, rfl⟩
  · rw [if_neg there]
    exact Or.inl ⟨by omega, rfl⟩

/-- The checker accepts a module whose functions are typed and whose table names functions
of it, and stops at any other with what is not valid. -/
theorem validate_cases :
    ((∀ func ∈ module.funcs, module.Typed func) ∧
      (∀ index ∈ module.table, index.toNat < module.functionCount) ∧ module.validate = .ok ()) ∨
    (¬((∀ func ∈ module.funcs, module.Typed func) ∧
        ∀ index ∈ module.table, index.toNat < module.functionCount) ∧
      ∃ why, module.validate = .error (.invalid why)) := by
  have funcs := @forM_check (Func × Nat) (fun one => module.checkFunc one.2 one.1)
    module.funcs.zipIdx (fun one => module.Typed one.1) fun one _ => checkFunc_typed one.2 one.1
  have all : (∀ one ∈ module.funcs.zipIdx, module.Typed one.1) ↔
      ∀ func ∈ module.funcs, module.Typed func := by
    constructor
    · intro each func there
      rcases List.mem_iff_getElem.mp there with ⟨index, below, rfl⟩
      refine each (module.funcs[index], index) ?_
      rw [List.mem_zipIdx_iff_getElem?]
      exact List.getElem?_eq_getElem below
    · intro each one there
      rw [List.mem_zipIdx_iff_getElem?] at there
      exact each _ (List.mem_of_getElem? there)
  have entries := @forM_check UInt32 module.checkEntry module.table
    (fun index => index.toNat < module.functionCount) fun index _ => checkEntry_there index
  rw [Module.validate]
  rcases funcs with ⟨typed, passes⟩ | ⟨untyped, why, stops⟩
  · rw [passes]
    rcases entries with ⟨there, passes⟩ | ⟨missing, stops⟩
    · exact Or.inl ⟨all.mp typed, there, passes⟩
    · exact Or.inr ⟨fun both => missing both.2, stops⟩
  · rw [stops]
    exact Or.inr ⟨fun both => untyped (all.mpr both.1), why, rfl⟩

/-- What the checker does not look at: the types of imports, the functions and the memory that
are exported, the names they are exported under, the memory that data goes to, how many
pages it has, and whether there is a table where something is called through it. -/
structure Module.Loads (module : Module) : Prop where
  imports : ∀ import_ ∈ module.imports, import_.typeIndex.toNat < module.types.length
  pages : ∀ pages, module.memoryPages = some pages → pages.toNat ≤ 65536
  exports : ∀ exported ∈ module.exports, exported.2.toNat < module.functionCount
  exportedMemory : module.exportedMemory.isSome = true → module.memoryPages.isSome = true
  names : module.exportNames.Nodup
  data : module.data ≠ [] → module.memoryPages.isSome = true
  indirect : module.table = [] → ∀ func ∈ module.funcs, Ins.anyIndirect func.body = false

theorem typed_iff (func : Func) :
    (∃ signature, module.types[func.typeIndex.toNat]? = some signature ∧
      HasTypes (module.context signature func) func.body [] signature.results.reverse) ↔
    module.Typed func ∧ (module.table = [] → Ins.anyIndirect func.body = false) := by
  cases table : module.table with
  | nil =>
      have without (signature : FuncType) : (module.context signature func).table = false := by
        show (!module.table.isEmpty) = false
        rw [table]
        rfl
      constructor
      · rintro ⟨signature, found, typed⟩
        rcases (hasTypes_withTable func.body (without signature)).mp typed with ⟨typed, none⟩
        exact ⟨⟨signature, found, typed⟩, fun _ => none⟩
      · rintro ⟨⟨signature, found, typed⟩, none⟩
        exact ⟨signature, found,
          (hasTypes_withTable func.body (without signature)).mpr ⟨typed, none rfl⟩⟩
  | cons first rest =>
      have there (signature : FuncType) :
          (module.context signature func).withTable = module.context signature func := by
        apply withTable_self
        show (!module.table.isEmpty) = true
        rw [table]
        rfl
      constructor
      · rintro ⟨signature, found, typed⟩
        exact ⟨⟨signature, found, (there signature).symm ▸ typed⟩, nofun⟩
      · rintro ⟨⟨signature, found, typed⟩, -⟩
        exact ⟨signature, found, there signature ▸ typed⟩

/-- A module is valid exactly when the checker accepts it and what the checker does not look
at is as it should be. -/
theorem valid_iff_accepted (module : Module) :
    module.Valid ↔ module.validate = .ok () ∧ module.Loads := by
  rcases @validate_cases module with ⟨typed, entries, passes⟩ | ⟨fails, why, stops⟩
  · constructor
    · intro valid
      refine ⟨passes, valid.imports, valid.pages, valid.exports, valid.exportedMemory, valid.names,
        valid.data, ?_⟩
      intro none func there
      exact ((typed_iff func).mp (valid.funcs func there)).2 none
    · rintro ⟨-, loads⟩
      refine ⟨loads.imports, ?_, entries, loads.pages, loads.exports, loads.exportedMemory,
        loads.names, loads.data⟩
      intro func there
      exact (typed_iff func).mpr ⟨typed func there, fun none => loads.indirect none func there⟩
  · constructor
    · intro valid
      refine absurd ⟨?_, valid.table⟩ fails
      intro func there
      exact ((typed_iff func).mp (valid.funcs func there)).1
    · rintro ⟨passes, -⟩
      rw [stops] at passes
      exact absurd passes (by simp)

/-- A module without a table, whose only function calls through it. -/
def callsThroughNothing : Module where
  types := [⟨[], []⟩]
  imports := []
  funcs := [⟨0, [], [.i32Const 0, .callIndirect 0]⟩]
  exports := [("f", 7)]
  memoryPages := none
  exportedMemory := none
  data := []
  table := []
  names := []

/-- It is accepted, with an export of a function that it does not have. -/
theorem accepts_invalid :
    callsThroughNothing.validate = .ok () ∧ ¬callsThroughNothing.Valid ∧
      ¬∀ exported ∈ callsThroughNothing.exports,
        exported.2.toNat < callsThroughNothing.functionCount := by
  refine ⟨rfl, ?_, by decide⟩
  intro valid
  have none := ((typed_iff _).mp (valid.funcs _ List.mem_cons_self)).2 rfl
  exact absurd none (by decide)

end Deed.Wasm
