import Deed.Codegen.Visible

/-!
# What is collected

Everything that is collected before the bodies are compiled, said of the expressions the walk
goes to: the shapes that are compared and hashed with what they hold, the helpers with what
they call, the imports and the signatures.
-/

namespace Deed.Codegen

open Deed.Library
open Deed.Wasm Deed.Mir Deed.Runtime

section Wanting

variable (lowercase : String → String) (program : Program)

/-- The shapes that are compared where the walk goes, and every shape those hold. -/
inductive Compares : Ty → Prop
  | operand {function op left right span}
      (visit : (function, Expr.binary op left right span) ∈ visits program)
      (equality : op = .eq ∨ op = .ne)
      (walks : Equality.walked (tyIn program function left) = true) :
      Compares (tyIn program function left)
  | held {ty held} (outer : Compares ty) (holds : held ∈ Equality.heldBy program ty)
      (walks : Equality.walked held = true) : Compares held

/-- The shapes that are hashed where the walk goes, and every shape those hold. -/
inductive Folds : Ty → Prop
  | operand {function value ty} (visit : (function, Expr.hashed value ty) ∈ visits program)
      (walks : Hashing.walked ty = true) : Folds ty
  | held {ty held} (outer : Folds ty) (holds : held ∈ Equality.heldBy program ty)
      (walks : Equality.walked held = true) : Folds held

/-- The helpers that are needed for what stands where the walk goes. -/
inductive Needs : Helper → Prop
  | memory : Needs .grownMemory
  | comparedText {ty} (shape : Compares program ty) (text : .str ∈ Equality.heldBy program ty) :
      Needs .sameText
  | foldedText {ty} (shape : Folds program ty) (text : .str ∈ Equality.heldBy program ty) :
      Needs .hashedText
  | hashedText {function value} (visit : (function, Expr.hashed value .str) ∈ visits program) :
      Needs .hashedText
  | operator {visit helper} (visited : visit ∈ visits program)
      (calls : helperOfBinary program visit = some helper) : Needs helper
  | runtime {visit helper} (visited : visit ∈ visits program)
      (calls : helperOfRuntime visit = some helper) : Needs helper
  | also {helper other} (outer : Needs helper) (calls : other ∈ helper.needs) : Needs other

/-- Whether an effect is installed where the walk goes. -/
def handled (effect : EffectId) : Bool :=
  (visits program).any fun visit =>
    match visit.2 with
    | .install found _ _ _ _ => found == effect
    | _ => false

/-- What an operation is imported as. -/
def operationName (effect : EffectId) (operation : Nat) : String × String :=
  let declared := effectAt program effect
  (namespaceOf lowercase declared, declared.operations.getD operation "")

/-- What an expression has the module import. -/
def importedAs (visit : Function × Expr) : Option (String × String) :=
  match visit.2 with
  | .host name _ _ => some (importName name)
  | .perform effect operation _ _ =>
      if handled program effect then none
      else some (operationName lowercase program effect operation)
  | _ => none

/-- Whether the walk finds something to import under a name. -/
def imports (name : String × String) : Bool :=
  (visits program).any fun visit => importedAs lowercase program visit == some name

/-- Whether an expression is a host call of a name. -/
def callsHost (name : String) (visit : Function × Expr) : Bool :=
  match visit.2 with
  | .host called _ _ => called == name
  | _ => false

/-- The signatures that functions have, and that calls have where the walk goes. -/
inductive Declares : FuncType → Prop
  | function {function} (declared : function ∈ program.functions) :
      Declares (signatureOf function)
  | reached {visit signature} (visited : visit ∈ visits program)
      (reaches : reachedBy program visit = some signature) : Declares signature
  | host {name function args ret}
      (first : (visits program).find? (callsHost name) = some (function, Expr.host name args ret)) :
      Declares (shapeOf program function args ret)
  | escaping {function effect operation args ret}
      (visit : (function, Expr.perform effect operation args ret) ∈ visits program)
      (unhandled : handled program effect = false) :
      Declares (performedSignature program effect operation)

/-- What a module is asked to hold. -/
def Ask.IsSupply : Ask → Prop
  | .helper _ | .comparison _ | .fold _ | .host _ => True
  | _ => False

/-- What is only counted. -/
def Ask.IsCounted : Ask → Prop
  | .performs _ _ | .installs _ => True
  | _ => False

/-- What is asked for where the walk goes, or is needed for something that is. -/
def Wanted : Ask → Prop
  | .helper helper => Needs program helper
  | .comparison shape => Compares program shape
  | .fold shape => Folds program shape
  | .host name => imports lowercase program (importName name) = true
  | .signature signature => Declares program signature
  | .performs effect operation => ∃ function args ret,
      (function, Expr.perform effect operation args ret) ∈ visits program
  | .installs effect => handled program effect = true
  | .refused _ => False

end Wanting

section Collecting

variable {lowercase : String → String} {program : Program}

/-- What steps that note one thing for each element come to. -/
theorem mem_noted {α β : Type} {step : List β → α → List β} {of : α → Option β}
    (notes : ∀ found element other,
      other ∈ step found element ↔ other ∈ found ∨ of element = some other)
    (elements : List α) (found : List β) (other : β) :
    other ∈ elements.foldl step found ↔
      other ∈ found ∨ ∃ element ∈ elements, of element = some other := by
  induction elements generalizing found with
  | nil => simp
  | cons first rest ih =>
      rw [List.foldl_cons, ih, notes]
      simp only [List.mem_cons, exists_eq_or_imp, or_assoc]

/-- Adding what is not there yet. -/
theorem mem_added {α : Type} [DecidableEq α] (found : List α) (added other : α) :
    (other ∈ if added ∈ found then found else found ++ [added]) ↔
      other ∈ found ∨ added = other := by
  split
  · next present =>
      constructor
      · exact Or.inl
      · rintro (old | rfl)
        · exact old
        · exact present
  · rw [List.mem_append, List.mem_singleton, eq_comm]

/-! ## Shapes -/

/-- The shape that an expression compares two of. -/
def comparedAt (program : Program) (visit : Function × Expr) : Option Ty :=
  match visit.2 with
  | .binary op left _ _ =>
      if (op = .eq ∨ op = .ne) ∧ Equality.walked (tyIn program visit.1 left) = true then
        some (tyIn program visit.1 left)
      else none
  | _ => none

def hashedAt (visit : Function × Expr) : Option Ty :=
  match visit.2 with
  | .hashed _ ty => if Hashing.walked ty = true then some ty else none
  | _ => none

theorem mem_noteCompared (found : List Ty) (visit : Function × Expr) (other : Ty) :
    other ∈ noteCompared program found visit ↔
      other ∈ found ∨ comparedAt program visit = some other := by
  rcases visit with ⟨function, e⟩
  cases e with
  | binary op left right span =>
      rw [noteCompared, comparedAt]
      by_cases equality : op = .eq ∨ op = .ne
      · by_cases walks : Equality.walked (tyIn program function left) = true
        · have added := mem_added found (tyIn program function left) other
          by_cases present : tyIn program function left ∈ found
          · simpa [equality, walks, present] using added
          · simpa [equality, walks, present] using added
        · simp [equality, walks]
      · simp [equality]
  | _ => simp [noteCompared, comparedAt]

theorem mem_noteHashed (found : List Ty) (visit : Function × Expr) (other : Ty) :
    other ∈ noteHashed found visit ↔ other ∈ found ∨ hashedAt visit = some other := by
  rcases visit with ⟨function, e⟩
  cases e with
  | hashed value ty =>
      rw [noteHashed, hashedAt]
      by_cases walks : Hashing.walked ty = true
      · have added := mem_added found ty other
        by_cases present : ty ∈ found
        · simpa [walks, present] using added
        · simpa [walks, present] using added
      · simp [walks]
  | _ => simp [noteHashed, hashedAt]

theorem mem_closeOver {found shapes : List Ty} {holds : Ty → Prop}
    (start : ∀ ty ∈ found, holds ty)
    (leads : ∀ ty, holds ty → ∀ held ∈ Equality.heldBy program ty,
      Equality.walked held = true → holds held)
    (closes : Equality.closeOver program found = some shapes) : ∀ ty ∈ shapes, holds ty := by
  refine @Worklist.close_least _ _ (.start found) _ _ _ holds ?_ start ?_ closes
  · intro ty its held present
    rcases List.mem_filter.1 present with ⟨holds_, walks⟩
    exact leads ty its held holds_ walks
  · intro ty waiting
    exact start ty (List.mem_reverse.1 waiting)

theorem mem_compared {shapes : List Ty} (found : compared program = some shapes) (ty : Ty) :
    ty ∈ shapes ↔ Compares program ty := by
  have noted := mem_noted (@mem_noteCompared program) (visits program) []
  rcases Equality.closeOver_holds found with ⟨kept, closed⟩
  constructor
  · refine @mem_closeOver program _ shapes (Compares program) ?_ ?_ found ty
    · intro operand present
      rcases (noted operand).1 present with absurd_ | ⟨⟨function, e⟩, visited, its⟩
      · exact absurd absurd_ List.not_mem_nil
      · cases e with
        | binary op left right span =>
            dsimp only [comparedAt] at its
            split at its
            · next both =>
                cases its
                exact Compares.operand visited both.1 both.2
            · cases its
        | _ => cases its
    · intro outer its held holds walks
      exact Compares.held its holds walks
  · intro compares
    induction compares with
    | @operand function op left right span visit equality walks =>
        apply kept
        apply (noted _).2
        exact Or.inr ⟨_, visit, if_pos ⟨equality, walks⟩⟩
    | held outer holds walks ih => exact closed _ ih _ holds walks

theorem mem_hashed {shapes : List Ty} (found : hashed program = some shapes) (ty : Ty) :
    ty ∈ shapes ↔ Folds program ty := by
  have noted := mem_noted mem_noteHashed (visits program) []
  rcases Equality.closeOver_holds found with ⟨kept, closed⟩
  constructor
  · refine @mem_closeOver program _ shapes (Folds program) ?_ ?_ found ty
    · intro operand present
      rcases (noted operand).1 present with absurd_ | ⟨⟨function, e⟩, visited, its⟩
      · exact absurd absurd_ List.not_mem_nil
      · cases e with
        | hashed value ty =>
            dsimp only [hashedAt] at its
            split at its
            · next walks =>
                cases its
                exact Folds.operand visited walks
            · cases its
        | _ => cases its
    · intro outer its held holds walks
      exact Folds.held its holds walks
  · intro folds
    induction folds with
    | operand visit walks =>
        apply kept
        apply (noted _).2
        exact Or.inr ⟨_, visit, if_pos walks⟩
    | held outer holds walks ih => exact closed _ ih _ holds walks

/-! ## Helpers -/

theorem needsText_iff {shapes : List Ty} : Equality.needsText program shapes = true ↔
    ∃ ty ∈ shapes, .str ∈ Equality.heldBy program ty := by
  simp [Equality.needsText]

theorem hashesText_iff : hashesText program = true ↔
    ∃ function value, (function, Expr.hashed value .str) ∈ visits program := by
  rw [hashesText, List.any_eq_true]
  constructor
  · rintro ⟨⟨function, e⟩, visited, its⟩
    cases e with
    | hashed value ty =>
        rw [beq_iff_eq.1 its] at visited
        exact ⟨function, value, visited⟩
    | _ => cases its
  · rintro ⟨function, value, visited⟩
    exact ⟨_, visited, rfl⟩

theorem mem_noteAll (found wanted : List Helper) (helper : Helper) :
    helper ∈ noteAll found wanted ↔ helper ∈ found ∨ helper ∈ wanted := by
  have noted := @mem_noted Helper Helper _ some (fun found element other =>
    (mem_added found element other).trans (or_congr_right Option.some_inj.symm))
    wanted found helper
  refine noted.trans (or_congr_right ?_)
  constructor
  · rintro ⟨element, listed, same⟩
    rwa [← Option.some.inj same]
  · exact fun listed => ⟨helper, listed, rfl⟩

/-- Notes the helpers that one function asks for. -/
def noteFunction (program : Program) (found : List Helper) (function : Function) : List Helper :=
  let visits := (walkBlock function.body).map fun expr => (function, expr)
  noteAll (noteAll found (visits.filterMap (helperOfBinary program)))
    (visits.filterMap helperOfRuntime)

theorem mem_visits {function : Function} {e : Expr} :
    (function, e) ∈ visits program ↔
      function ∈ program.functions ∧ e ∈ walkBlock function.body := by
  rw [visits, List.mem_flatMap]
  constructor
  · rintro ⟨owner, declared, present⟩
    rcases List.mem_map.1 present with ⟨node, walked, same⟩
    cases same
    exact ⟨declared, walked⟩
  · rintro ⟨declared, walked⟩
    exact ⟨function, declared, List.mem_map.2 ⟨e, walked, rfl⟩⟩

theorem mem_noteFunctions (functions : List Function) (found : List Helper) (helper : Helper) :
    helper ∈ functions.foldl (noteFunction program) found ↔
      helper ∈ found ∨ ∃ function ∈ functions, ∃ e ∈ walkBlock function.body,
        helperOfBinary program (function, e) = some helper ∨
          helperOfRuntime (function, e) = some helper := by
  induction functions generalizing found with
  | nil => simp
  | cons first rest ih =>
      rw [List.foldl_cons, ih, noteFunction, mem_noteAll, mem_noteAll]
      simp only [List.mem_filterMap, List.mem_map, exists_exists_and_eq_and, List.mem_cons,
        exists_eq_or_imp, or_assoc, exists_or, and_or_left]
      exact or_congr_right (or_congr_right or_left_comm)

theorem mem_asked {shapes folded : List Ty} (helper : Helper) :
    helper ∈ asked program shapes folded ↔ helper = .grownMemory ∨
      (Equality.needsText program shapes = true ∧ helper = .sameText) ∨
      ((Equality.needsText program folded || hashesText program) = true ∧
        helper = .hashedText) ∨
      ∃ visit ∈ visits program, helperOfBinary program visit = some helper ∨
        helperOfRuntime visit = some helper := by
  rw [asked]
  refine (@mem_noteFunctions program program.functions _ helper).trans ?_
  have bodies : (∃ function ∈ program.functions, ∃ e ∈ walkBlock function.body,
        helperOfBinary program (function, e) = some helper ∨
          helperOfRuntime (function, e) = some helper) ↔
      ∃ visit ∈ visits program, helperOfBinary program visit = some helper ∨
        helperOfRuntime visit = some helper := by
    constructor
    · rintro ⟨function, declared, e, walked, asks⟩
      exact ⟨(function, e), mem_visits.2 ⟨declared, walked⟩, asks⟩
    · rintro ⟨⟨function, e⟩, visited, asks⟩
      rcases mem_visits.1 visited with ⟨declared, walked⟩
      exact ⟨function, declared, e, walked, asks⟩
  rw [bodies]
  cases Equality.needsText program shapes <;>
    cases Equality.needsText program folded || hashesText program <;>
      simp [or_assoc]

theorem Helper.mem_all (helper : Helper) : helper ∈ Helper.all := by
  cases helper <;> decide

/-- What the bodies and the shapes ask for, and what that calls. -/
theorem mem_helpersUsed {shapes folded : List Ty} {helpers : List Helper}
    (compares : compared program = some shapes) (folds : hashed program = some folded)
    (found : helpersUsed program shapes folded = some helpers) (helper : Helper) :
    helper ∈ helpers ↔ Needs program helper := by
  rcases Option.map_eq_some_iff.1 found with ⟨closed, closes, rfl⟩
  rw [List.mem_filter, decide_eq_true_eq]
  refine (and_iff_right (Helper.mem_all helper)).trans ?_
  have shaped : Equality.needsText program shapes = true ↔
      ∃ ty, Compares program ty ∧ .str ∈ Equality.heldBy program ty := by
    simp only [needsText_iff, mem_compared compares]
  have hashes : Equality.needsText program folded = true ↔
      ∃ ty, Folds program ty ∧ .str ∈ Equality.heldBy program ty := by
    simp only [needsText_iff, mem_hashed folds]
  have begins (helper : Helper) : helper ∈ asked program shapes folded → Needs program helper := by
    intro present
    rcases (mem_asked helper).1 present with rfl | ⟨text, rfl⟩ | ⟨text, rfl⟩ | body
    · exact Needs.memory
    · rcases shaped.1 text with ⟨ty, shape, holds⟩
      exact Needs.comparedText shape holds
    · rcases Bool.or_eq_true_iff.1 text with text | bare
      · rcases hashes.1 text with ⟨ty, shape, holds⟩
        exact Needs.foldedText shape holds
      · rcases hashesText_iff.1 bare with ⟨function, value, visit⟩
        exact Needs.hashedText visit
    · rcases body with ⟨visit, visited, operator | runtime⟩
      · exact Needs.operator visited operator
      · exact Needs.runtime visited runtime
  constructor
  · refine @Worklist.close_least _ _ (.start (asked program shapes folded)) _ _ _
      (Needs program) ?_ begins ?_ closes helper
    · exact fun outer its also calls => Needs.also its calls
    · exact fun waiting present => begins waiting (List.mem_reverse.1 present)
  · rcases Worklist.close_closed (.start _) closes with ⟨kept, whole⟩
    intro needs
    induction needs with
    | memory => exact kept _ ((mem_asked _).2 (Or.inl rfl))
    | comparedText shape text =>
        exact kept _ ((mem_asked _).2 (Or.inr (Or.inl ⟨shaped.2 ⟨_, shape, text⟩, rfl⟩)))
    | foldedText shape text =>
        refine kept _ ((mem_asked _).2 (Or.inr (Or.inr (Or.inl ⟨?_, rfl⟩))))
        exact Bool.or_eq_true_iff.2 (Or.inl (hashes.2 ⟨_, shape, text⟩))
    | hashedText visit =>
        refine kept _ ((mem_asked _).2 (Or.inr (Or.inr (Or.inl ⟨?_, rfl⟩))))
        exact Bool.or_eq_true_iff.2 (Or.inr (hashesText_iff.2 ⟨_, _, visit⟩))
    | operator visited calls =>
        exact kept _ ((mem_asked _).2 (Or.inr (Or.inr (Or.inr ⟨_, visited, Or.inl calls⟩))))
    | runtime visited calls =>
        exact kept _ ((mem_asked _).2 (Or.inr (Or.inr (Or.inr ⟨_, visited, Or.inr calls⟩))))
    | also outer calls ih => exact whole _ ih _ calls

theorem helpersUsed_ends (program : Program) (shapes folded : List Ty) :
    ∃ helpers, helpersUsed program shapes folded = some helpers := by
  have ends : ∃ closed, Worklist.close Helper.needs
      (Helper.all.length + (asked program shapes folded).length + 1)
      (.start (asked program shapes folded)) = some closed := by
    apply Worklist.close_ends Helper.all.toFinset
    · exact fun _ _ other _ => List.mem_toFinset.2 (Helper.mem_all other)
    · exact fun other _ => List.mem_toFinset.2 (Helper.mem_all other)
    · have most := (Finset.card_le_card (@Finset.sdiff_subset _ _ Helper.all.toFinset
        (asked program shapes folded).toFinset)).trans (List.toFinset_card_le _)
      rw [Worklist.left, Worklist.start, List.length_reverse]
      exact Nat.lt_succ_of_le (Nat.add_le_add_right most _)
  rcases ends with ⟨closed, closes⟩
  exact ⟨_, Option.map_eq_some_iff.2 ⟨closed, closes, rfl⟩⟩

/-! ## Signatures and imports -/

theorem mem_internType (module : Module) (ty other : FuncType) :
    other ∈ (internType module ty).2.types ↔ other ∈ module.types ∨ ty = other := by
  rw [internType]
  cases found : module.types.findIdx? fun existing => existing == ty with
  | none =>
      rw [List.mem_append, List.mem_singleton, eq_comm]
  | some position =>
      have present : ty ∈ module.types := by
        have any_ : module.types.any (· == ty) = true := by
          rw [← List.findIdx?_isSome, found]
          rfl
        rcases List.any_eq_true.1 any_ with ⟨existing, listed, same⟩
        rwa [← beq_iff_eq.1 same]
      constructor
      · exact Or.inl
      · rintro (old | rfl)
        · exact old
        · exact present

theorem internType_rest (module : Module) (ty : FuncType) :
    (internType module ty).2.imports = module.imports ∧
      (internType module ty).2.funcs = module.funcs := by
  rw [internType]
  cases module.types.findIdx? fun existing => existing == ty <;> exact ⟨rfl, rfl⟩

/-- The name of an import. -/
def Import.named (found : Import) : String × String := (found.module, found.name)

theorem mem_addImport (module : Module) (name : String × String) (typeIndex : UInt32)
    (other : String × String) :
    other ∈ (addImport module name.1 name.2 typeIndex).imports.map Import.named ↔
      other ∈ module.imports.map Import.named ∨ name = other := by
  rw [addImport]
  split
  · next there =>
      have present : name ∈ module.imports.map Import.named := by
        rcases List.any_eq_true.1 there with ⟨found, listed, same⟩
        rcases Bool.and_eq_true_iff.1 same with ⟨space, called⟩
        refine List.mem_map.2 ⟨found, listed, ?_⟩
        rw [Import.named, beq_iff_eq.1 space, beq_iff_eq.1 called]
      constructor
      · exact Or.inl
      · rintro (old | rfl)
        · exact old
        · exact present
  · rw [List.map_append, List.mem_append, List.map_singleton, List.mem_singleton, eq_comm]
    rfl

theorem addImport_rest (module : Module) (space name : String) (typeIndex : UInt32) :
    (addImport module space name typeIndex).types = module.types ∧
      (addImport module space name typeIndex).funcs = module.funcs := by
  rw [addImport]
  split <;> exact ⟨rfl, rfl⟩

theorem mem_importAs_types (module : Module) (name : String × String) (signature other : FuncType) :
    other ∈ (importAs module name signature).types ↔ other ∈ module.types ∨ signature = other := by
  rw [importAs, (addImport_rest _ _ _ _).1]
  exact mem_internType module signature other

theorem mem_importAs_names (module : Module) (name : String × String) (signature : FuncType)
    (other : String × String) :
    other ∈ (importAs module name signature).imports.map Import.named ↔
      other ∈ module.imports.map Import.named ∨ name = other := by
  have added := mem_addImport (internType module signature).2 name
    (internType module signature).1 other
  rwa [(internType_rest module signature).1] at added

theorem importAs_funcs (module : Module) (name : String × String) (signature : FuncType) :
    (importAs module name signature).funcs = module.funcs := by
  rw [importAs, (addImport_rest _ _ _ _).2, (internType_rest module signature).2]

/-- The host call of a name that is noted is the first one. -/
theorem mem_noteHosts (visits : List (Function × Expr)) (found : List (String × FuncType))
    (name : String) (signature : FuncType) :
    (name, signature) ∈ visits.foldl (noteHost program) found ↔
      (name, signature) ∈ found ∨ (name ∉ found.map Prod.fst ∧
        ∃ function args ret,
          visits.find? (callsHost name) = some (function, .host name args ret) ∧
            shapeOf program function args ret = signature) := by
  induction visits generalizing found with
  | nil => simp
  | cons first rest ih =>
      rcases first with ⟨function, e⟩
      rw [List.foldl_cons, ih, List.find?_cons]
      cases e with
      | host called args ret =>
          have there : (found.any fun seen => seen.1 == called) = true ↔
              called ∈ found.map Prod.fst := by
            simp [List.any_eq_true, List.mem_map]
          by_cases same : called = name
          · cases same
            have first : callsHost name (function, .host name args ret) = true :=
              beq_self_eq_true name
            rw [first, noteHost]
            dsimp only
            by_cases noted : name ∈ found.map Prod.fst
            · rw [if_pos (there.2 noted)]
              simp only [noted, not_true_eq_false, false_and]
            · rw [if_neg (mt there.1 noted)]
              have added : name ∈ (found ++ [(name, shapeOf program function args ret)]).map
                  Prod.fst := by
                rw [List.map_append]
                exact List.mem_append_right _ List.mem_cons_self
              simp only [added, not_true_eq_false, false_and, or_false, List.mem_append,
                List.mem_singleton, Prod.mk.injEq, true_and, noted, not_false_eq_true,
                Option.some.injEq]
              refine or_congr_right ⟨?_, ?_⟩
              · rintro rfl
                exact ⟨function, args, ret, ⟨rfl, rfl⟩, rfl⟩
              · rintro ⟨_, _, _, ⟨rfl, its⟩, rfl⟩
                cases its
                rfl
          · have other : callsHost name (function, .host called args ret) = false :=
              beq_eq_false_iff_ne.2 same
            rw [other, noteHost]
            dsimp only
            split
            · exact Iff.rfl
            · simp only [List.mem_append, List.mem_singleton, Prod.mk.injEq, List.map_append,
                List.map_singleton, Ne.symm same, false_and, or_false]
      | _ => exact Iff.rfl

theorem mem_hostCalls (name : String) (signature : FuncType) :
    (name, signature) ∈ hostCalls program ↔ ∃ function args ret,
      (visits program).find? (callsHost name) = some (function, .host name args ret) ∧
        shapeOf program function args ret = signature := by
  rw [hostCalls, mem_noteHosts]
  simp

/-- A host call that the walk finds is noted under its name. -/
theorem hostCalls_named (name : String) : (∃ signature, (name, signature) ∈ hostCalls program) ↔
    ∃ function args ret, (function, Expr.host name args ret) ∈ visits program := by
  simp only [mem_hostCalls]
  constructor
  · rintro ⟨signature, function, args, ret, first, -⟩
    exact ⟨function, args, ret, List.mem_of_find?_eq_some first⟩
  · rintro ⟨function, args, ret, visit⟩
    cases found : (visits program).find? (callsHost name) with
    | none =>
        have missed := List.find?_eq_none.1 found _ visit
        exact absurd (beq_self_eq_true name) missed
    | some first =>
        rcases first with ⟨owner, e⟩
        have calls := List.find?_some found
        cases e with
        | host called args ret =>
            rw [beq_iff_eq.1 calls] at found ⊢
            exact ⟨_, owner, args, ret, rfl, rfl⟩
        | _ => cases calls

theorem mem_performed (effect : EffectId) (operation : Nat) :
    (effect, operation) ∈ performed program ↔
      ∃ function args ret, (function, Expr.perform effect operation args ret) ∈ visits program := by
  rw [performed, List.mem_filterMap]
  constructor
  · rintro ⟨⟨function, e⟩, visited, its⟩
    cases e with
    | perform effect operation args ret =>
        cases its
        exact ⟨function, args, ret, visited⟩
    | _ => cases its
  · rintro ⟨function, args, ret, visited⟩
    exact ⟨_, visited, rfl⟩

theorem mem_installed (effect : EffectId) :
    effect ∈ installed program ↔ handled program effect = true := by
  rw [installed, List.mem_filterMap, handled, List.any_eq_true]
  constructor
  · rintro ⟨⟨function, e⟩, visited, its⟩
    cases e with
    | install found state operations body ty =>
        cases its
        exact ⟨_, visited, beq_self_eq_true _⟩
    | _ => cases its
  · rintro ⟨⟨function, e⟩, visited, its⟩
    cases e with
    | install found state operations body ty =>
        exact ⟨_, visited, congrArg some (beq_iff_eq.1 its)⟩
    | _ => cases its

theorem mem_escaping (entry : Escaping) : entry ∈ escapingOperations lowercase program ↔
    (∃ function args ret,
      (function, Expr.perform entry.effect entry.position args ret) ∈ visits program) ∧
    handled program entry.effect = false ∧
    (entry.namespace, entry.operation) =
      operationName lowercase program entry.effect entry.position := by
  rcases entry with ⟨space, operation, effect, position⟩
  rw [escapingOperations, List.mem_map]
  constructor
  · rintro ⟨⟨found, at_⟩, kept, same⟩
    cases same
    rcases List.mem_filter.1 kept with ⟨present, unhandled⟩
    refine ⟨(mem_performed _ _).1 ?_, ?_, rfl⟩
    · exact List.mem_dedup.1 (List.mem_mergeSort.1 present)
    · have missing := of_decide_eq_true unhandled
      rw [mem_installed] at missing
      exact Bool.eq_false_of_not_eq_true missing
  · rintro ⟨visited, unhandled, named⟩
    refine ⟨(effect, position), List.mem_filter.2 ⟨?_, ?_⟩, ?_⟩
    · exact List.mem_mergeSort.2 (List.mem_dedup.2 ((mem_performed _ _).2 visited))
    · apply decide_eq_true
      rw [mem_installed, unhandled]
      exact Bool.false_ne_true
    · dsimp only at named ⊢
      rcases Prod.mk.inj named with ⟨rfl, rfl⟩
      rfl

/-- Importing one thing after the other. -/
theorem mem_importAll {α : Type} (name : α → String × String) (signature : α → FuncType)
    (entries : List α) (module : Module) :
    (∀ other, other ∈ (entries.foldl (fun module entry =>
          importAs module (name entry) (signature entry)) module).imports.map Import.named ↔
        other ∈ module.imports.map Import.named ∨ ∃ entry ∈ entries, name entry = other) ∧
      (∀ other, other ∈ (entries.foldl (fun module entry =>
          importAs module (name entry) (signature entry)) module).types ↔
        other ∈ module.types ∨ ∃ entry ∈ entries, signature entry = other) ∧
      (entries.foldl (fun module entry =>
          importAs module (name entry) (signature entry)) module).funcs = module.funcs := by
  induction entries generalizing module with
  | nil => simp
  | cons first rest ih =>
      rcases ih (importAs module (name first) (signature first)) with ⟨names, types, funcs⟩
      refine ⟨fun other => ?_, fun other => ?_, ?_⟩
      · rw [List.foldl_cons, names, mem_importAs_names]
        simp only [List.mem_cons, exists_eq_or_imp, or_assoc]
      · rw [List.foldl_cons, types, mem_importAs_types]
        simp only [List.mem_cons, exists_eq_or_imp, or_assoc]
      · rw [List.foldl_cons, funcs, importAs_funcs]

theorem mem_internAll (signatures : List FuncType) (module : Module) :
    (∀ other, other ∈ (signatures.foldl (fun module ty =>
          (internType module ty).2) module).types ↔ other ∈ module.types ∨ other ∈ signatures) ∧
      (signatures.foldl (fun module ty => (internType module ty).2) module).imports =
        module.imports ∧
      (signatures.foldl (fun module ty => (internType module ty).2) module).funcs =
        module.funcs := by
  induction signatures generalizing module with
  | nil => simp
  | cons first rest ih =>
      rcases ih (internType module first).2 with ⟨types, imports, funcs⟩
      refine ⟨fun other => ?_, ?_, ?_⟩
      · rw [List.foldl_cons, types, mem_internType, List.mem_cons, or_assoc, eq_comm]
      · rw [List.foldl_cons, imports, (internType_rest module first).1]
      · rw [List.foldl_cons, funcs, (internType_rest module first).2]

theorem imports_iff (name : String × String) : imports lowercase program name = true ↔
    (∃ entry ∈ hostCalls program, importName entry.1 = name) ∨
      ∃ entry ∈ escapingOperations lowercase program,
        (entry.namespace, entry.operation) = name := by
  rw [imports, List.any_eq_true]
  constructor
  · rintro ⟨⟨function, e⟩, visited, its⟩
    cases e with
    | host called args ret =>
        rcases (hostCalls_named called).2 ⟨function, args, ret, visited⟩ with ⟨signature, noted⟩
        exact Or.inl ⟨_, noted, Option.some.inj (beq_iff_eq.1 its)⟩
    | perform effect operation args ret =>
        dsimp only [importedAs] at its
        cases handles : handled program effect with
        | true =>
            rw [handles] at its
            cases its
        | false =>
            rw [handles] at its
            have same : operationName lowercase program effect operation = name :=
              Option.some.inj (beq_iff_eq.1 its)
            exact Or.inr ⟨⟨_, _, effect, operation⟩,
              (mem_escaping _).2 ⟨⟨function, args, ret, visited⟩, handles, rfl⟩, same⟩
    | _ => cases its
  · rintro (⟨⟨called, signature⟩, noted, rfl⟩ | ⟨entry, escapes, rfl⟩)
    · rcases (hostCalls_named called).1 ⟨signature, noted⟩ with ⟨function, args, ret, visited⟩
      exact ⟨_, visited, beq_self_eq_true _⟩
    · rcases (mem_escaping entry).1 escapes with ⟨⟨function, args, ret, visited⟩, unhandled, named⟩
      refine ⟨_, visited, ?_⟩
      rw [named, importedAs]
      dsimp only
      rw [unhandled]
      exact beq_self_eq_true _

theorem declares_iff (signature : FuncType) : Declares program signature ↔
    signature ∈ program.functions.map signatureOf ∨ signature ∈ reached program ∨
      (∃ entry ∈ hostCalls program, entry.2 = signature) ∨
      ∃ entry ∈ escapingOperations lowercase program,
        performedSignature program entry.effect entry.position = signature := by
  constructor
  · intro declares
    cases declares with
    | function declared => exact Or.inl (List.mem_map.2 ⟨_, declared, rfl⟩)
    | reached visited reaches =>
        exact Or.inr (Or.inl (List.mem_filterMap.2 ⟨_, visited, reaches⟩))
    | @host name function args ret first =>
        exact Or.inr (Or.inr (Or.inl ⟨(name, _),
          (mem_hostCalls name _).2 ⟨function, args, ret, first, rfl⟩, rfl⟩))
    | @escaping function effect operation args ret visit unhandled =>
        let name := operationName lowercase program effect operation
        exact Or.inr (Or.inr (Or.inr ⟨⟨name.1, name.2, effect, operation⟩,
          (mem_escaping _).2 ⟨⟨function, args, ret, visit⟩, unhandled, rfl⟩, rfl⟩))
  · rintro (own | reaches | ⟨⟨name, its⟩, noted, rfl⟩ | ⟨entry, escapes, rfl⟩)
    · rcases List.mem_map.1 own with ⟨function, declared, rfl⟩
      exact Declares.function declared
    · rcases List.mem_filterMap.1 reaches with ⟨visit, visited, same⟩
      exact Declares.reached visited same
    · rcases (mem_hostCalls name its).1 noted with ⟨function, args, ret, first, rfl⟩
      exact Declares.host first
    · rcases (mem_escaping entry).1 escapes with ⟨⟨function, args, ret, visit⟩, unhandled, -⟩
      exact Declares.escaping visit unhandled

/-- The module before any function, by what is in it. -/
theorem declared_holds (lowercase : String → String) (program : Program) :
    (∀ name, name ∈ (declared lowercase program).imports.map Import.named ↔
        imports lowercase program name = true) ∧
      (∀ signature, signature ∈ (declared lowercase program).types ↔
        Declares program signature) ∧
      (declared lowercase program).funcs = [] := by
  have answered := mem_importAll (fun entry => (entry.namespace, entry.operation))
    (fun entry => performedSignature program entry.effect entry.position)
    (escapingOperations lowercase program) ((hostCalls program).foldl
      (fun module entry => importAs module (importName entry.1) entry.2) ((reached program).foldl
        (fun module ty => (internType module ty).2) ((program.functions.map signatureOf).foldl
          (fun module ty => (internType module ty).2)
          ⟨[], [], [], [], some 16, some "memory", [], [], []⟩)))
  have hosted := mem_importAll (fun entry => importName entry.1) Prod.snd (hostCalls program)
    ((reached program).foldl
        (fun module ty => (internType module ty).2) ((program.functions.map signatureOf).foldl
          (fun module ty => (internType module ty).2)
          ⟨[], [], [], [], some 16, some "memory", [], [], []⟩))
  have reaching := mem_internAll (reached program)
    ((program.functions.map signatureOf).foldl
          (fun module ty => (internType module ty).2)
          ⟨[], [], [], [], some 16, some "memory", [], [], []⟩)
  have signed := mem_internAll (program.functions.map signatureOf)
    ⟨[], [], [], [], some 16, some "memory", [], [], []⟩
  refine ⟨fun name => (answered.1 name).trans ?_, fun signature =>
    (answered.2.1 signature).trans ?_, ?_⟩
  · rw [hosted.1, reaching.2.1, signed.2.1, imports_iff, List.map_nil, or_assoc]
    exact or_iff_right List.not_mem_nil
  · rw [hosted.2.1, reaching.1, signed.1, @declares_iff lowercase, or_assoc, or_assoc, or_assoc]
    exact or_iff_right List.not_mem_nil
  · exact answered.2.2.trans (hosted.2.2.trans (reaching.2.2.trans signed.2.2))

/-! ## All of it -/

theorem collect_ends (lowercase : String → String) (program : Program) :
    ∃ collected, collect lowercase program = some collected := by
  rcases Equality.closeOver_ends program ((visits program).foldl (noteCompared program) [])
    with ⟨shapes, compares⟩
  rcases Equality.closeOver_ends program ((visits program).foldl noteHashed [])
    with ⟨folded, hashes⟩
  rcases helpersUsed_ends program shapes folded with ⟨helpers, uses⟩
  refine ⟨⟨declared lowercase program, shapes, folded, helpers⟩, ?_⟩
  have found : compared program = some shapes := compares
  have found' : hashed program = some folded := hashes
  rw [collect, found, found']
  show (helpersUsed program shapes folded).bind _ = _
  rw [uses]
  rfl

/-- What is collected, part by part. -/
theorem collect_cases {collected : Collected} (found : collect lowercase program = some collected) :
    collected.module = declared lowercase program ∧
      (∀ ty, ty ∈ collected.shapes ↔ Compares program ty) ∧
      (∀ ty, ty ∈ collected.folded ↔ Folds program ty) ∧
      ∀ helper, helper ∈ collected.helpers ↔ Needs program helper := by
  rcases Option.bind_eq_some_iff.1 found with ⟨shapes, compares, found⟩
  rcases Option.bind_eq_some_iff.1 found with ⟨folded, hashes, found⟩
  rcases Option.bind_eq_some_iff.1 found with ⟨helpers, uses, same⟩
  cases same
  exact ⟨rfl, mem_compared compares, mem_hashed hashes, mem_helpersUsed compares hashes uses⟩

theorem callOf_numbered (shapes : List Ty) (start : Nat) (ty : Ty) :
    (callOf (Collected.numbered shapes start) ty).isSome = true ↔ ty ∈ shapes := by
  have names : (Collected.numbered shapes start).map Prod.fst = shapes := by
    rw [Collected.numbered, List.map_map]
    exact List.zipIdx_map_fst 0 shapes
  have there : (callOf (Collected.numbered shapes start) ty).isSome = true ↔
      ty ∈ (Collected.numbered shapes start).map Prod.fst := by
    constructor
    · intro there
      rcases Option.isSome_iff_exists.1 there with ⟨call, found⟩
      rcases Option.map_eq_some_iff.1 found with ⟨entry, same, -⟩
      have matched := List.find?_some same
      exact List.mem_map.2 ⟨entry, List.mem_of_find?_eq_some same, beq_iff_eq.1 matched⟩
    · intro present
      rcases callOf_mem present with ⟨index, found, -⟩
      rw [found]
      rfl
  rwa [names] at there

theorem absent_iff {α : Type} (found : Option α) (what : String) :
    Builder.complaint.absent found what = none ↔ found.isSome = true := by
  cases found with
  | none => exact iff_of_false (Option.some_ne_none what) Bool.false_ne_true
  | some value => exact iff_of_true rfl rfl

/-- What a body asks for is there exactly if it is wanted where the walk goes, or is only
counted. -/
theorem complaint_iff {collected : Collected} (found : collect lowercase program = some collected)
    (function : Function) (ask : Ask) :
    (collected.builder program lowercase function).complaint ask = none ↔
      Wanted lowercase program ask ∨ ask.IsCounted := by
  rcases collect_cases found with ⟨module, shapes, folded, helpers⟩
  rcases declared_holds lowercase program with ⟨names, types, -⟩
  cases ask with
  | helper helper =>
      refine (absent_iff _ _).trans (Iff.trans ?_ ((helpers helper).trans (or_iff_left id).symm))
      show ((collected.whereHelpers program) helper).isSome = true ↔ _
      rw [Collected.whereHelpers, Option.isSome_map, List.findIdx?_isSome, List.any_eq_true]
      simp
  | comparison shape =>
      exact (absent_iff _ _).trans ((callOf_numbered _ _ shape).trans
        ((shapes shape).trans (or_iff_left id).symm))
  | fold shape =>
      exact (absent_iff _ _).trans ((callOf_numbered _ _ shape).trans
        ((folded shape).trans (or_iff_left id).symm))
  | host name =>
      refine (absent_iff _ _).trans (Iff.trans ?_
        ((names (importName name)).trans (or_iff_left id).symm))
      show (collected.module.imports.findIdx? _).isSome = true ↔ _
      rw [List.findIdx?_isSome, module, List.any_eq_true, List.mem_map]
      apply exists_congr
      intro entry
      rw [Bool.and_eq_true_iff, beq_iff_eq, beq_iff_eq]
      exact and_congr_right fun _ =>
        (@Prod.ext_iff _ _ (Import.named entry) (importName name)).symm
  | signature signature =>
      refine (absent_iff _ _).trans (Iff.trans ?_
        ((types signature).trans (or_iff_left id).symm))
      show (collected.module.types.findIdx? _).isSome = true ↔ _
      rw [List.findIdx?_isSome, module, List.any_eq_true]
      simp
  | performs effect operation => exact iff_of_true rfl (Or.inr trivial)
  | installs effect => exact iff_of_true rfl (Or.inr trivial)
  | refused why => exact iff_of_false (Option.some_ne_none _) (or_self_iff.1 · |>.elim)

end Collecting

end Deed.Codegen
