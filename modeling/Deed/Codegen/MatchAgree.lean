import Deed.Codegen.MatchSound
import Deed.Typeck.ExhaustiveSound

/-!
# A `match` in the two engines

Where the interpreter and compiled code both take the first arm of an accepted `match`
whose whole pattern describes the value: the heads of the patterns have to decide, and no
earlier arm of the compiled chain may have a test that passes on the variant that is there.
-/

namespace Deed.Codegen

open Deed.Ast (Ident MatchArm Pattern)
open Deed.Eval (Code DefId Names bindersOf binderOf describes described)
open Deed.Library
open Deed.Lowering
open Deed.Mir Deed.Runtime Deed.Wasm
open Deed.Typeck (Decided TakesDescribed)
open Hashing (produced)

/-- A `match` that was lowered and compiled, and a machine on which its operand has left a
word that shows a value.  How an expression is lowered is a parameter that only adds slots;
the slots it hands out end up in the function. -/
structure CompiledMatch (code : Code) (value : Eval.Value) (arms : List MatchArm) where
  Rest : Type
  expr : Ast.Expr → Lower Rest Expr
  tyAt : Ast.Span → Lower Rest Ty
  scrutinee : Ast.Expr
  span : Ast.Span
  first : Lowering Rest
  last : Lowering Rest
  lowered : Expr
  builder : Builder
  before : Drafted
  after : Drafted
  instructions : List Ins
  engine : Engine
  memory : Memory
  locals : List Value
  leaf : Ty → Eval.Value → Datum → Prop
  layout : LayoutId
  variant : Nat
  data : List Datum
  word : Int
  lowers : matchArms builder.program code.defOf expr tyAt scrutinee arms span first =
    some (.ok lowered, last)
  compiles : builder.expr lowered before = some (.ok instructions, after)
  grows : ∀ written state lowered later, expr written state = some (.ok lowered, later) →
    state.locals <+: later.locals
  recorded : ∀ place state ty later, tyAt place state = some (.ok ty, later) →
    state.locals <+: later.locals
  kept : last.locals <+: builder.function.locals
  counted : builder.function.locals.length < 2 ^ 32
  pages : memory.pages ≤ engine.ceiling
  room : Room builder locals
  typed : ∃ between, tyAt scrutinee.span first = some (.ok (.aggregate layout), between)
  holds : Holds builder.program memory (.made variant data) (.aggregate layout) word
  shows : Shows builder.program leaf (.aggregate layout) value (.made variant data)
  resolved : ∀ arm ∈ arms, Resolved code arm.pattern

namespace CompiledMatch

variable {code : Code} {value : Eval.Value} {arms : List MatchArm}
  (compiled : CompiledMatch code value arms)

/-- A slot has a part of the value. -/
def InSlot (locals : List Value) (slot : Local) (part : Eval.Value) : Prop :=
  ∃ ty datum word, compiled.builder.function.locals[slot]? = some ty ∧
    Shows compiled.builder.program compiled.leaf ty part datum ∧
    Holds compiled.builder.program compiled.memory datum ty word ∧
    ∀ index, compiled.builder.slot slot = some index →
      (locals[index.toNat]?).toList = produced ty word

/-- Running the compiled arms on the word that the operand left is running what the body of
an arm was compiled to, out of the `if`s around it, with every name of the arm in a slot. -/
def Runs_ (arm : MatchArm) : Prop :=
  ∃ (operand chain body : List Ins) (state : Lowering compiled.Rest) (depth : Nat) (ty : Ty)
    (locals : List Value) (variants : List Nat) (bindings : List (FieldPath × Ident)),
    compiled.instructions = operand ++ chain ∧
    (∃ expr one two three four, compiled.expr compiled.scrutinee one = some (.ok expr, two) ∧
      compiled.builder.expr expr three = some (.ok operand, four)) ∧
    (∃ expr one two three, compiled.expr arm.body state = some (.ok expr, one) ∧
      compiled.builder.expr expr two = some (.ok body, three)) ∧
    (∀ post, Wasm.Runs compiled.engine chain
        ⟨compiled.memory, compiled.locals, [word64 compiled.word]⟩ post ↔
      Wasm.Runs compiled.engine body ⟨compiled.memory, locals, []⟩ fun outcome =>
        post ((Outcome.leave (valType ty) [])^[depth] outcome)) ∧
    armPattern compiled.builder.program compiled.layout arm.pattern = .ok (variants, bindings) ∧
    ∀ definition ∈ bindersOf code arm.pattern, ∃ path name slot part,
      (path, name) ∈ bindings ∧ code.defOf name = some definition ∧
      Assoc.find? state.slots definition = some slot ∧
      Names code value arm.pattern definition part ∧ compiled.InSlot locals slot part

/-- The first arm that has no test, or whose test passes on the variant that is there. -/
def entered : Option Nat :=
  arms.findIdx? fun arm =>
    applies compiled.builder.program compiled.layout compiled.variant arm.pattern

/-- Compiled code takes the first arm whose whole pattern describes the value, with what
the pattern binds. -/
def TakesDescribed : Prop :=
  ∃ index arm, described code value arms = some index ∧ arms[index]? = some arm ∧
    compiled.entered = some index ∧ compiled.Runs_ arm

/-- No arm before the one that describes the value has a test that passes, and that arm is
not a name which happens to be what a variant is called. -/
def Tested : Prop :=
  ∀ (index : Nat) (arm : MatchArm), described code value arms = some index →
    arms[index]? = some arm →
    (∀ (earlier : Nat) (other : MatchArm), earlier < index → arms[earlier]? = some other →
      applies compiled.builder.program compiled.layout compiled.variant other.pattern = false) ∧
    Headed code arm.pattern

/-! ## The operand and the arms -/

/-- What a lowered `match` consists of. -/
theorem parts : ∃ (between started reached : Lowering compiled.Rest) (operand : Expr) (ty : Ty)
    (chain : Block),
    compiled.tyAt compiled.scrutinee.span compiled.first =
      some (.ok (.aggregate compiled.layout), between) ∧
    compiled.expr compiled.scrutinee
      { between with locals := between.locals ++ [.aggregate compiled.layout] } =
      some (.ok operand, started) ∧
    started.locals <+: reached.locals ∧
    chainArms compiled.builder.program code.defOf compiled.expr compiled.layout
      between.locals.length ty compiled.span arms reached = some (.ok chain, compiled.last) ∧
    compiled.lowered = .block (.mk [.assign between.locals.length operand] (.block chain)) := by
  rcases compiled.typed with ⟨between, typed⟩
  have lowers := compiled.lowers
  rw [matchArms, Action.run_bind_ok typed] at lowers
  simp only at lowers
  rcases Action.ok_of_bind lowers with ⟨held, added, adds, further⟩
  rcases Prod.mk.inj (Option.some.inj adds) with ⟨same, rfl⟩
  rw [← Except.ok.inj same] at further
  rcases Action.ok_of_bind further with ⟨operand, started, valued, further⟩
  have grown : ∃ ty reached, started.locals <+: reached.locals ∧
      (chainArms compiled.builder.program code.defOf compiled.expr compiled.layout
        between.locals.length ty compiled.span arms >>= fun chain =>
        pure (.block (.mk [.assign between.locals.length operand] (.block chain)))) reached =
        some (.ok compiled.lowered, compiled.last) := by
    cases head : arms.head? with
    | none =>
        simp only [head] at further
        exact ⟨_, started, List.prefix_refl _, further⟩
    | some arm =>
        simp only [head] at further
        rcases Action.ok_of_bind further with ⟨ty, reached, recorded, further⟩
        exact ⟨ty, reached, compiled.recorded _ _ _ _ recorded, further⟩
  rcases grown with ⟨ty, reached, grown, further⟩
  rcases Action.ok_of_bind further with ⟨chain, last, chained, ends⟩
  rcases Prod.mk.inj (Option.some.inj ends) with ⟨whole, same⟩
  rw [same] at chained
  exact ⟨between, started, reached, operand, ty, chain, typed, valued, grown, chained,
    (Except.ok.inj whole).symm⟩

theorem armPattern_ok {Rest : Type} {program : Program} {resolution : Ident → Option DefId}
    {expr : Ast.Expr → Lower Rest Expr} {id : LayoutId} {held : Local} {ty : Ty}
    {span : Ast.Span} {arms : List MatchArm} {first last : Lowering Rest} {chain : Block}
    (lowered : chainArms program resolution expr id held ty span arms first =
      some (.ok chain, last)) :
    ∀ arm ∈ arms, ∃ variants bindings,
      armPattern program id arm.pattern = .ok (variants, bindings) := by
  induction arms generalizing last chain with
  | nil => exact fun arm listed => absurd listed List.not_mem_nil
  | cons head rest ih =>
      rcases chainArms_cons lowered with
        ⟨after, before, between, variants, bindings, stmts, value, chained, pattern, -⟩
      intro arm listed
      rcases List.mem_cons.1 listed with rfl | later
      · exact ⟨variants, bindings, pattern⟩
      · exact ih chained arm later

/-- The arm that compiled code enters is run, with what its pattern names in slots. -/
theorem runs_entered {checker : Typeck.Checker} {value : Eval.Value}
    (compiled : CompiledMatch checker.code value arms) {index : Nat} {arm : MatchArm}
    (there : arms[index]? = some arm)
    (whole : describes checker.code value arm.pattern = true)
    (headed : Headed checker.code arm.pattern) (quiet : Quiet checker arm.pattern)
    (passed : ∀ (earlier : Nat) (other : MatchArm), earlier < index →
      arms[earlier]? = some other →
      applies compiled.builder.program compiled.layout compiled.variant other.pattern = false)
    (enters : applies compiled.builder.program compiled.layout compiled.variant arm.pattern =
      true) : compiled.Runs_ arm := by
  rcases compiled.parts with
    ⟨between, started, reached, operand, ty, chain, typed, valued, grown, chained, whole_⟩
  have compiles := compiled.compiles
  rw [whole_, Builder.expr] at compiles
  rcases block_ok compiles with ⟨storing, arms_, stored, stores, enters_, code_⟩
  rw [Builder.stmts] at stores
  rcases Action.ok_of_bind stores with ⟨assign, middle, assigns, stores⟩
  rcases Action.ok_of_bind stores with ⟨nothing, final, empty, ends⟩
  rcases Prod.mk.inj (Option.some.inj empty) with ⟨bare, rfl⟩
  rcases Prod.mk.inj (Option.some.inj ends) with ⟨same, rfl⟩
  rw [← Except.ok.inj bare, List.append_nil] at same
  rw [← Except.ok.inj same] at code_
  rw [Builder.stmt] at assigns
  rcases Action.ok_of_bind assigns with ⟨operandCode, next, operands, leaves⟩
  rcases Prod.mk.inj (Option.some.inj leaves) with ⟨alike, rfl⟩
  rw [← Except.ok.inj alike] at code_
  rw [Builder.expr] at enters_
  -- The slot of the operand, and the locals once its word is in it.
  have operandGrows := compiled.grows _ _ _ _ valued
  have armsGrow := chainArms_grows compiled.grows chained
  have here : compiled.builder.function.locals[between.locals.length]? =
      some (.aggregate compiled.layout) := by
    apply prefix_get (((operandGrows.trans grown).trans armsGrow).trans compiled.kept)
    rw [List.getElem?_append_right (Nat.le_refl _), Nat.sub_self]
    rfl
  have slot := @slot_of_typed compiled.builder _ _ .i64 here rfl
  generalize UInt32.ofNat ((compiled.builder.function.locals.take
    between.locals.length).filterMap valType).length = index_ at slot
  have inside := compiled.room _ _ slot
  rw [slot] at code_
  have held : (compiled.locals.set index_.toNat (word64 compiled.word))[index_.toNat]? =
      some (word64 compiled.word) := List.getElem?_set_self inside
  have small := size_small compiled.pages
  have room : Room compiled.builder (compiled.locals.set index_.toNat (word64 compiled.word)) := by
    intro local_ other found
    rw [List.length_set]
    exact compiled.room local_ other found
  rcases chainArms_enters compiled.engine compiled.grows small slot held
    compiled.holds arms chained enters_ there enters passed with
    ⟨variants, bindings, before, after, later, stmts, value_, one, two, three, binding, body,
      depth, pattern, reached_, bound, bodied, ends, binds, runs, entry⟩
  have reads := armPattern_reads headed whole
    (compiled.resolved arm (List.mem_of_getElem? there)) quiet compiled.shows pattern
  have first : between.locals.length < before.locals.length := by
    have longer := ((operandGrows.trans grown).trans reached_).length_le
    rw [List.length_append] at longer
    exact longer
  rcases bindParts_stored compiled.engine small compiled.counted slot compiled.holds
    bindings room first held (armPattern_through pattern)
    (fun named listed => by
      rcases reads.bound named.1 named.2 listed with ⟨inner, part, leads, -⟩
      exact ⟨inner, part, leads⟩) bound
    (((compiled.grows _ _ _ _ bodied).trans ends).trans compiled.kept) binds with
    ⟨locals', stored'⟩
  refine ⟨operandCode, .localSet index_ :: arms_, body, after, depth, ty, locals', variants,
    bindings, ?_, ⟨operand, _, _, _, _, valued, operands⟩, ⟨value_, _, _, _, bodied, runs⟩, ?_,
    pattern, ?_⟩
  · rw [code_, List.append_assoc]
    rfl
  · intro post
    rw [runs_localSet, if_pos inside, entry, stored'.leaves]
  · intro definition binder
    rcases reads.named definition binder with ⟨path, name, listed, resolved⟩
    rcases stored'.bound definition ⟨(path, name), listed, resolved⟩ with
      ⟨path', name', slot', listed', resolved', found, type, part, word, typed', leads, holds,
        filled⟩
    rcases reads.bound path' name' listed' with ⟨inner, part', leads', shown⟩
    rcases leads.unique leads' with ⟨rfl, rfl⟩
    have kind := local_of_binder _ _ (compiled.resolved arm (List.mem_of_getElem? there)) binder
    rcases shown definition resolved' kind with ⟨held_, names, shows⟩
    exact ⟨path', name', slot', held_, listed', resolved', found, names, type, part, word,
      typed', shows, holds, filled⟩

/-- Where the interpreter takes the right arm, compiled code takes it exactly where no
earlier test passes. -/
theorem takesDescribed_iff {program : Eval.Program} {checker : Typeck.Checker} {scrutinee : Typeck.Ty}
    {span : Ast.Span} {value : Eval.Value}
    (accepted : checker.checkMatch scrutinee arms span = [])
    (taken : Deed.Typeck.TakesDescribed program checker.code value arms)
    (compiled : CompiledMatch checker.code value arms) :
    compiled.TakesDescribed ↔ compiled.Tested := by
  constructor
  · rintro ⟨index, arm, found, there, entered, operand, chain, body, state, depth, ty, locals,
      variants, bindings, -, -, -, -, pattern, bound⟩
    intro position other found' there'
    rw [← Option.some.inj (found.symm.trans found')] at there' ⊢
    rw [← Option.some.inj (there.symm.trans there')]
    rcases List.findIdx?_eq_some_iff_getElem.1 entered with ⟨inside, -, before⟩
    constructor
    · intro earlier third less at_
      have passed := before earlier less
      rw [List.getElem?_eq_getElem (Nat.lt_trans less inside)] at at_
      rw [Option.some.inj at_] at passed
      exact Bool.eq_false_iff.2 passed
    · intro segments place same
      cases binds : binderOf checker.code segments with
      | none => rfl
      | some definition =>
          have binder : definition ∈ bindersOf checker.code arm.pattern := by
            rw [same, bindersOf, binds]
            exact List.mem_singleton.2 rfl
          rcases bound definition binder with ⟨path, name, slot, part, listed, -⟩
          rw [same, armPattern] at pattern
          rcases Lowering.ok_of_bind pattern with ⟨at_, -, rest⟩
          rw [← (Prod.mk.inj (Except.ok.inj rest)).2] at listed
          exact absurd listed List.not_mem_nil
  · intro tested
    rcases taken with ⟨index, arm, found, there, -⟩
    rcases tested index arm found there with ⟨passed, headed⟩
    have whole := (Typeck.describes_of_described found there).1
    have listed := List.mem_of_getElem? there
    have quiet : Quiet checker arm.pattern :=
      ⟨scrutinee, List.flatMap_eq_nil_iff.1 (List.append_eq_nil_iff.1 accepted).1 arm listed⟩
    have enters : applies compiled.builder.program compiled.layout compiled.variant arm.pattern =
        true := by
      rcases compiled.parts with
        ⟨between, started, reached, operand, ty, chain, -, -, -, chained, -⟩
      rcases armPattern_ok chained arm listed with ⟨variants, bindings, pattern⟩
      rw [applies_iff pattern]
      exact Or.inr (armPattern_lists arm.pattern headed whole
        (compiled.resolved arm listed) compiled.shows pattern)
    refine ⟨index, arm, found, there, ?_,
      compiled.runs_entered there whole headed quiet passed enters⟩
    rw [entered, List.findIdx?_eq_some_iff_getElem]
    have inside := (List.getElem?_eq_some_iff.1 there).1
    refine ⟨inside, ?_, ?_⟩
    · rw [List.getElem?_eq_getElem inside] at there
      rw [Option.some.inj there]
      exact enters
    · intro earlier less applied
      have at_ := List.getElem?_eq_getElem (Nat.lt_trans less inside)
      rw [passed earlier _ less at_] at applied
      exact absurd applied Bool.false_ne_true

end CompiledMatch

/-- Both engines take the first arm of an accepted `match` whose whole pattern describes the
value, with what it binds, exactly where the heads decide and no earlier test passes. -/
theorem match_takes_described_iff {program : Eval.Program} {checker : Typeck.Checker}
    {scrutinee : Typeck.Ty} {arms : List MatchArm} {span : Ast.Span} {value : Eval.Value}
    (accepted : checker.checkMatch scrutinee arms span = [])
    (shaped : checker.Shaped scrutinee value) :
    (TakesDescribed program checker.code value arms ∧
        ∀ compiled : CompiledMatch checker.code value arms, compiled.TakesDescribed) ↔
      Decided program checker scrutinee value arms ∧
        ∀ compiled : CompiledMatch checker.code value arms, compiled.Tested := by
  constructor
  · rintro ⟨taken, right⟩
    refine ⟨(Typeck.takesDescribed_iff accepted shaped).1 taken, ?_⟩
    exact fun compiled => (compiled.takesDescribed_iff accepted taken).1 (right compiled)
  · rintro ⟨decided, tested⟩
    have taken := (Typeck.takesDescribed_iff accepted shaped).2 decided
    refine ⟨taken, ?_⟩
    exact fun compiled => (compiled.takesDescribed_iff accepted taken).2 (tested compiled)

/-! ### A choice of a light -/

namespace Lights

/-- A word of the module, by where it starts. -/
def word (name : String) (start : Nat) : Ident := ⟨name, ⟨start, start + 1⟩⟩

/-- `choice Light { Green, Red { level: Int } }`, and where a `match` names its variants. -/
def code : Code where
  path := "lights"
  file := 0
  resolutions := {
    definition := fun definition =>
      match definition with
      | 0 => ⟨.choice, "Light", none⟩
      | 1 => ⟨.variant, "Green", some 0⟩
      | 2 => ⟨.variant, "Red", some 0⟩
      | _ => ⟨.local, "level", none⟩
    resolution := fun span =>
      match span.start with
      | 20 => some 2
      | 30 => some 2
      | 32 => some 3
      | 40 => some 1
      | _ => none
    builtin := fun _ => none
    imports := fun _ => none
    importModule := fun _ => none }
  functions := []
  handlerDecls := []
  refinements := fun _ => none
  subjects := fun _ => none
  guards := fun _ => none
  rows := fun _ => none
  operators := fun _ => none
  stateNames := fun _ => none
  handlersDistinct := List.nodup_nil

def variants : List Typeck.VariantTy := [⟨1, "Green", none⟩, ⟨2, "Red", some [⟨"level", .int⟩]⟩]

def nominal (definition : DefId) : Option Typeck.Nominal :=
  if definition = 0 then some (.choice variants) else none

theorem nominal_choice {choice : DefId} {listed : List Typeck.VariantTy}
    (is : nominal choice = some (.choice listed)) : choice = 0 ∧ listed = variants := by
  unfold nominal at is
  by_cases zero : choice = 0
  · rw [if_pos zero] at is
    exact ⟨zero, (Typeck.Nominal.choice.inj (Option.some.inj is)).symm⟩
  · rw [if_neg zero] at is
    exact absurd is.symm (Option.some_ne_none _)

def checker : Typeck.Checker where
  code := code
  types := ⟨nominal, fun definition => if definition = 0 then some "Light" else none⟩
  world := fun _ _ => none
  declared := by
    intro choice listed is variant present
    rcases nominal_choice is with ⟨rfl, rfl⟩
    rcases List.mem_cons.1 present with rfl | present
    · exact ⟨rfl, rfl, rfl⟩
    · rw [List.mem_singleton.1 present]
      exact ⟨rfl, rfl, rfl⟩
  home := by
    intro choice listed is
    rw [(nominal_choice is).1]
    rfl

/-- `Green => 3` -/
def green : MatchArm := .mk (.path [word "Green" 40] ⟨40, 45⟩) (.int 3 ⟨49, 50⟩) ⟨40, 50⟩

/-- `Red { level: 0 } => 1, Red { level } => 2, Green => 3` -/
def nested : List MatchArm := [
  .mk (.record [word "Red" 20] [.mk (word "level" 22) (some (.int 0 ⟨24, 25⟩)) ⟨22, 25⟩] ⟨20, 26⟩)
    (.int 1 ⟨27, 28⟩) ⟨20, 28⟩,
  .mk (.record [word "Red" 30] [.mk (word "level" 32) none ⟨32, 37⟩] ⟨30, 38⟩)
    (.int 2 ⟨39, 40⟩) ⟨30, 40⟩, green]

/-- `Red | Red => 1, Green => 3` -/
def doubled : List MatchArm := [
  .mk (.oneOf [.path [word "Red" 20] ⟨20, 23⟩, .path [word "Red" 30] ⟨30, 33⟩] ⟨20, 33⟩)
    (.int 1 ⟨37, 38⟩) ⟨20, 38⟩, green]

def program : Eval.Program := ⟨[code], none⟩

def span : Ast.Span := ⟨10, 51⟩

/-- `Red { level: 1 }` -/
def red : Eval.Value := .variant "lights" "Red" [("level", .int 1)]

/-- `Green` -/
def greenValue : Eval.Value := .variant "lights" "Green" []

/-- The layout of the choice. -/
def lights : Program where
  layouts := [⟨"Light", [⟨"Green", []⟩, ⟨"Red", [⟨"level", .int⟩]⟩], true⟩]
  effects := []
  functions := []
  counted := by
    intro layout listed
    rw [List.mem_singleton.1 listed]
    exact Nat.pow_lt_pow_right Nat.one_lt_two (by decide : 1 < 63)

/-- The operand is in the first slot, and the body of an arm is a number. -/
def expr : Ast.Expr → Lower Unit Expr
  | .int value _ => pure (.int value)
  | _ => pure (.local_ 0)

/-- What is named is a light, and everything else a number. -/
def tyAt (place : Ast.Span) : Lower Unit Ty :=
  if place.start = 16 then pure (.aggregate 0) else pure .int

def builder : Builder where
  program := lights
  function := ⟨"main", [], .int, [.aggregate 0, .aggregate 0], .of .unit⟩
  signatures := []
  imports := []
  shift := 0
  helpers := fun _ => none
  equals := []
  hashes := []
  lowercase := id

def engine : Engine where
  module := {
    types := []
    imports := []
    funcs := []
    exports := []
    memoryPages := some 1
    exportedMemory := none
    data := []
    table := []
    names := [] }
  ceiling := 1
  small := Hashing.one_page_small

def drafted : Drafted := ⟨⟨0, [], []⟩, [], []⟩

end Lights

open Lights

theorem lights_room : Room builder [word64 8, word64 8] := by
  intro local_ index found
  rcases slot_some found with ⟨ty, typed, -, rfl⟩
  have inside : local_ < 2 := (List.getElem?_eq_some_iff.1 typed).1
  rcases local_ with _ | _ | local_
  · exact (by decide : (0 : Nat) < 2)
  · exact (by decide : (1 : Nat) < 2)
  · exact absurd inside (Nat.not_lt.2 (Nat.le_add_left 2 local_))

theorem resolved_word {name : String} {start : Nat} {definition : DefId} {place : Ast.Span}
    (found : code.defOf (word name start) = some definition)
    (called : code.nameOf definition = name) (kind : code.kindOf definition ≠ .local) :
    Resolved code (.path [word name start] place) := by
  constructor
  · intro last other end_ resolved
    rw [← Option.some.inj end_] at resolved ⊢
    rw [Option.some.inj (resolved.symm.trans found)]
    exact called
  · refine Or.inr fun other head => ?_
    have resolved : code.defOf (word name start) = some other := head
    rw [Option.some.inj (resolved.symm.trans found)]
    exact kind

/-- `Red | Red` and `Green`, compiled, where the light is green. -/
def Lights.compiled : CompiledMatch code greenValue doubled where
  Rest := Unit
  expr := expr
  tyAt := tyAt
  scrutinee := .ident (word "light" 16)
  span := span
  first := ⟨[.aggregate 0], [], ()⟩
  last := ⟨[.aggregate 0, .aggregate 0], [], ()⟩
  lowered := .block (.mk [.assign 1 (.local_ 0)] (.block (.mk [] (.int 1))))
  builder := builder
  before := drafted
  after := drafted
  instructions := [.localGet 0, .localSet 1, .i64Const 1]
  engine := engine
  memory := Equality.zeros
  locals := [word64 8, word64 8]
  leaf := fun _ _ _ => False
  layout := 0
  variant := 0
  data := []
  word := 8
  lowers := rfl
  compiles := rfl
  grows := by
    intro written state lowered later ran
    cases written <;> rcases Prod.mk.inj (Option.some.inj ran) with ⟨-, rfl⟩ <;>
      exact List.prefix_refl _
  recorded := by
    intro place state ty later ran
    unfold tyAt at ran
    by_cases light : place.start = 16
    · rw [if_pos light] at ran
      rcases Prod.mk.inj (Option.some.inj ran) with ⟨-, rfl⟩
      exact List.prefix_refl _
    · rw [if_neg light] at ran
      rcases Prod.mk.inj (Option.some.inj ran) with ⟨-, rfl⟩
      exact List.prefix_refl _
  kept := List.prefix_refl _
  counted := by decide
  pages := Nat.le_refl 1
  room := lights_room
  typed := ⟨_, rfl⟩
  holds := by
    rw [Holds]
    refine ⟨0, rfl, ⟨"Green", []⟩, rfl, 8, rfl, by decide, fun _ => ?_, trivial⟩
    exact Equality.read_zeros (by decide)
  shows := @Shows.variant lights _ 0 "lights" 0 ⟨"Green", []⟩ [] [] rfl rfl rfl
    fun position field part datum declared => absurd declared.symm (Option.some_ne_none field)
  resolved := by
    intro arm listed
    rcases List.mem_cons.1 listed with rfl | listed
    · exact ⟨⟨resolved_word rfl rfl (by decide), resolved_word rfl rfl (by decide), trivial⟩, rfl⟩
    · rw [List.mem_singleton.1 listed]
      exact resolved_word rfl rfl (by decide)

theorem match_takes_described_green :
    (TakesDescribed program checker.code greenValue nested ∧
        ∀ compiled : CompiledMatch checker.code greenValue nested, compiled.TakesDescribed) ↔
      Decided program checker (.named 0 []) greenValue nested ∧
        ∀ compiled : CompiledMatch checker.code greenValue nested, compiled.Tested :=
  @match_takes_described_iff program checker (.named 0 []) nested span greenValue rfl
    ⟨⟨1, "Green", none⟩, List.mem_cons_self, [], rfl⟩

/-- The first arm is taken for a light that is red at another level, and compiled code
takes `Red | Red` for one that is green. -/
theorem match_takes_another :
    (checker.checkMatch (.named 0 []) nested span = [] ∧
      checker.Shaped (.named 0 []) red ∧ described code red nested = some 1 ∧
      Eval.taken program code red nested = some 0 ∧
      ¬ TakesDescribed program checker.code red nested) ∧
    checker.checkMatch (.named 0 []) doubled span = [] ∧
      checker.Shaped (.named 0 []) greenValue ∧
      TakesDescribed program checker.code greenValue doubled ∧
      ∃ compiled : CompiledMatch checker.code greenValue doubled, ¬ compiled.TakesDescribed := by
  refine ⟨⟨rfl, ⟨⟨2, "Red", _⟩, List.mem_cons_of_mem _ List.mem_cons_self, _, rfl⟩, rfl, rfl, ?_⟩,
    rfl, ⟨⟨1, "Green", none⟩, List.mem_cons_self, [], rfl⟩, ?_, Lights.compiled, ?_⟩
  · rintro ⟨index, arm, found, -, taken, -⟩
    have first : some 0 = some index := taken
    have second : some 1 = some index := found
    exact absurd (Option.some.inj (second.trans first.symm)) Nat.one_ne_zero
  · apply (@Typeck.takesDescribed_iff checker program greenValue doubled (.named 0 []) span rfl
      ⟨⟨1, "Green", none⟩, List.mem_cons_self, [], rfl⟩).2
    refine ⟨Or.inr ⟨green, List.mem_cons_of_mem _ List.mem_cons_self, rfl⟩, ?_⟩
    intro index arm there before
    rw [Eval.headDecides_iff]
    rcases index with _ | _ | index
    · rw [← Option.some.inj there]
      rfl
    · rw [← Option.some.inj there]
      rfl
    · exact absurd there.symm (Option.some_ne_none arm)
  · rintro ⟨index, arm, found, -, entered, -⟩
    have first : some 0 = some index := entered
    have second : some 1 = some index := found
    exact absurd (Option.some.inj (second.trans first.symm)) Nat.one_ne_zero

end Deed.Codegen
