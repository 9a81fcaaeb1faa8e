import Deed.Codegen.Drafting
import Deed.Eval.Builtins
import Deed.Stdlib.Ints
import Deed.Wasm.Stopping

/-!
# Checked arithmetic

What the instructions do that an operator on `Int`s is compiled to: they leave the number that
the interpreter answers, and where it has no answer they stop behind a code and a sentence in
memory.
-/

namespace Deed.Codegen

open Deed.Library
open Deed.Mir Deed.Wasm

/-! ## Wrapped numbers -/

/-- A truth value as the machine holds it. -/
def flag (holds : Prop) [Decidable holds] : Int32 := if holds then 1 else 0

section Flags

variable {p q : Prop} [Decidable p] [Decidable q]

theorem flag_and : flag p &&& flag q = flag (p ∧ q) := by
  by_cases first : p <;> by_cases second : q <;> simp [flag, first, second]

theorem flag_or : flag p ||| flag q = flag (p ∨ q) := by
  by_cases first : p <;> by_cases second : q <;> simp [flag, first, second]

theorem flag_eq_zero : flag p = 0 ↔ ¬p := by
  by_cases first : p <;> simp [flag, first]

end Flags

section Wrapping

variable {a b : Int64}

/-- A sum fits unless the wrapped one lies on the wrong side of an operand. -/
theorem add_wraps : (b > 0 ∧ a + b < a) ∨ (b < 0 ∧ a + b > a) ↔
    ¬Fits64 (a.toInt + b.toInt) := by
  have low := a.le_toInt
  have high := a.toInt_lt
  have low' := b.le_toInt
  have high' := b.toInt_lt
  have zero : (0 : Int64).toInt = 0 := rfl
  have wrapped : (a + b).toInt = (a.toInt + b.toInt).bmod (2 ^ 64) := Int64.toInt_add a b
  rw [Int.bmod_def] at wrapped
  rw [gt_iff_lt, gt_iff_lt, Int64.lt_iff_toInt_lt, Int64.lt_iff_toInt_lt, Int64.lt_iff_toInt_lt,
    Int64.lt_iff_toInt_lt, Fits64, zero]
  split at wrapped <;> omega

theorem sub_wraps : (b > 0 ∧ a - b > a) ∨ (b < 0 ∧ a - b < a) ↔
    ¬Fits64 (a.toInt - b.toInt) := by
  have low := a.le_toInt
  have high := a.toInt_lt
  have low' := b.le_toInt
  have high' := b.toInt_lt
  have zero : (0 : Int64).toInt = 0 := rfl
  have wrapped : (a - b).toInt = (a.toInt - b.toInt).bmod (2 ^ 64) := Int64.toInt_sub a b
  rw [Int.bmod_def] at wrapped
  rw [gt_iff_lt, gt_iff_lt, Int64.lt_iff_toInt_lt, Int64.lt_iff_toInt_lt, Int64.lt_iff_toInt_lt,
    Int64.lt_iff_toInt_lt, Fits64, zero]
  split at wrapped <;> omega

theorem eq_minValue : a = Int64.minValue ↔ a.toInt = -2 ^ 63 := by
  rw [← Int64.toInt_inj]
  rfl

theorem eq_minus_one : a = -1 ↔ a.toInt = -1 := by
  rw [← Int64.toInt_inj]
  rfl

theorem eq_zero : a = 0 ↔ a.toInt = 0 := by
  rw [← Int64.toInt_inj]
  rfl

/-- The only quotient that does not fit. -/
theorem div_wraps (nonzero : b ≠ 0) : (a = Int64.minValue ∧ b = -1) ↔
    ¬Fits64 (a.toInt.tdiv b.toInt) := by
  have low := a.le_toInt
  have high := a.toInt_lt
  rw [eq_minValue, eq_minus_one, Fits64]
  rw [ne_eq, eq_zero] at nonzero
  have smaller : (a.toInt.tdiv b.toInt).natAbs = a.toInt.natAbs / b.toInt.natAbs :=
    Int.natAbs_tdiv a.toInt b.toInt
  by_cases minus : b.toInt = -1
  · rw [minus, Int.tdiv_neg, Int.tdiv_one]
    omega
  · by_cases one : b.toInt = 1
    · rw [one, Int.tdiv_one]
      omega
    · have halved : a.toInt.natAbs / b.toInt.natAbs ≤ a.toInt.natAbs / 2 :=
        Nat.div_le_div_left (by omega) (by omega)
      rw [← smaller] at halved
      omega

/-- A wrapped product divides back to the other factor only where it is the product. -/
theorem mul_wraps (nonzero : a ≠ 0) (apart : ¬(a = -1 ∧ b = Int64.minValue)) :
    a * b / a ≠ b ↔ ¬Fits64 (a.toInt * b.toInt) := by
  have low := (a * b).le_toInt
  have high := (a * b).toInt_lt
  have small := a.le_toInt
  have small' := a.toInt_lt
  have least := b.le_toInt
  have most := b.toInt_lt
  have wrapped : (a * b).toInt = (a.toInt * b.toInt).bmod (2 ^ 64) := Int64.toInt_mul a b
  have whole : (a * b).toInt = a.toInt * b.toInt ∨
      2 ^ 64 ≤ ((a * b).toInt - a.toInt * b.toInt).natAbs := by
    generalize a.toInt * b.toInt = product at wrapped ⊢
    rw [Int.bmod_def] at wrapped
    split at wrapped <;> omega
  have divided : (a * b / a).toInt = (a * b).toInt.tdiv a.toInt := by
    by_cases minus : a = -1
    · apply Int64.toInt_div_of_ne_left
      rw [ne_eq, eq_minValue]
      have other : b.toInt ≠ -2 ^ 63 := fun same => apart ⟨minus, eq_minValue.mpr same⟩
      rw [eq_minus_one.mp minus] at whole
      generalize (a * b).toInt = product at whole
      omega
    · exact Int64.toInt_div_of_ne_right _ _ minus
  rw [ne_eq, ← Int64.toInt_inj, divided, not_iff_not]
  rw [ne_eq, eq_zero] at nonzero
  constructor
  · intro back
    have parts := Int.mul_tdiv_add_tmod (a * b).toInt a.toInt
    have short : ((a * b).toInt.tmod a.toInt).natAbs < a.toInt.natAbs := by
      rw [Int.natAbs_tmod]
      exact Nat.mod_lt _ (by omega)
    rw [back] at parts
    rcases whole with same | far
    · exact ⟨by omega, by omega⟩
    · omega
  · rintro ⟨above, below⟩
    rcases whole with same | far
    · rw [same, Int.mul_tdiv_cancel_left _ nonzero]
    · have inside : (a.toInt * b.toInt).bmod (2 ^ 64) = a.toInt * b.toInt :=
        Int.bmod_eq_of_le (by omega) (by omega)
      omega

end Wrapping

/-! ## Why it stopped -/

/-- Where a text is placed. -/
def Strings.Has (strings : Strings) (text : String) (address : UInt32) : Prop :=
  strings.placed.find? (fun entry => entry.1 == text) = some (text, address)

theorem place_has (strings : Strings) (text : String) :
    (strings.place text).2.Has text (strings.place text).1 := by
  rw [Strings.place]
  cases found : strings.placed.find? fun entry => entry.1 == text with
  | none =>
      show (strings.placed ++ [(text, strings.next)]).find? _ = _
      rw [List.find?_append, found, Option.none_or]
      exact List.find?_cons_of_pos (beq_self_eq_true text)
  | some entry =>
      rcases entry with ⟨other, address⟩
      have same : other = text := eq_of_beq (@List.find?_some _ _ (other, address) _ found)
      rw [same] at found
      exact found

theorem place_keeps {strings : Strings} {other : String} {address : UInt32} (text : String)
    (has : strings.Has other address) : (strings.place text).2.Has other address := by
  rw [Strings.place]
  cases strings.placed.find? fun entry => entry.1 == text with
  | none =>
      show (strings.placed ++ [(text, strings.next)]).find? _ = _
      rw [List.find?_append, show strings.placed.find? _ = _ from has]
      rfl
  | some entry => exact has

/-- The two words that say why a program stopped hold the addresses of a code and of a
sentence. -/
structure Says (strings : Strings) (memory : Memory) (code message : String) : Prop where
  code : ∃ address, strings.Has code address ∧
    memory.read FAILURE_CODE = some (address.toNat : Int)
  message : ∃ address, strings.Has message address ∧
    memory.read FAILURE_MESSAGE = some (address.toNat : Int)

/-- More texts placed after it change nothing about that. -/
theorem Says.place {strings : Strings} {memory : Memory} {code message : String}
    (told : Says strings memory code message) (text : String) :
    Says (strings.place text).2 memory code message := by
  rcases told with ⟨⟨one, has, read⟩, ⟨other, has', read'⟩⟩
  exact ⟨⟨one, place_keeps text has, read⟩, ⟨other, place_keeps text has', read'⟩⟩

section Failing

variable {engine : Engine} {memory : Memory} {locals stack : List Value} {rest failure : List Ins}
  {drafted after : Drafted} {code message : String}

theorem fits_address (address : UInt32) : Fits64 (address.toNat : Int) := by
  have small := address.toNat_lt
  rw [Fits64]
  omega

/-- A word written below the frames. -/
theorem comes_failure {place : Nat} {number : UInt32} (small : place < 2 ^ 31)
    (inside : place + 8 ≤ memory.size) :
    Comes engine [.i32Const (.ofNat place), .i64Const (.ofNat number.toNat), .i64Store 0]
      ⟨memory, locals, stack⟩ ⟨memory.put place number.toNat, locals, stack⟩ := by
  have there : place + (0 : UInt32).toNat + 8 ≤ memory.size := inside
  rw [Comes, runs_i32Const, runs_i64Const, runs_i64Store (by omega), if_pos there, runs_nil]
  rfl

/-- The instructions of a failure stop, with what they say in memory. -/
theorem failure_stops
    (emitted : Builder.failureInstructions code message drafted = some (.ok failure, after))
    (room : 32 ≤ memory.size) :
    ∃ last, Stops engine failure ⟨memory, locals, stack⟩ .unreachable last ∧
      Says after.strings last code message := by
  rcases Prod.mk.inj (Option.some.inj emitted) with ⟨is, rfl⟩
  rw [← Except.ok.inj is]
  refine ⟨(memory.put FAILURE_CODE (drafted.strings.place code).1.toNat).put FAILURE_MESSAGE
    ((drafted.strings.place code).2.place message).1.toNat, ?_, ?_, ?_⟩
  · exact Stops.after (comes_failure (by decide) (by rw [FAILURE_CODE]; omega))
      (Stops.after (comes_failure (by decide) (by rw [Memory.size_put, FAILURE_MESSAGE]; omega))
        (Stops.here rfl rfl))
  · exact ⟨_, place_keeps message (place_has drafted.strings code),
      Memory.read_put_other (Or.inl (by decide))
        (Memory.read_put (by rw [FAILURE_CODE]; omega) (fits_address _))⟩
  · exact ⟨_, place_has (drafted.strings.place code).2 message,
      Memory.read_put (by rw [Memory.size_put, FAILURE_MESSAGE]; omega) (fits_address _)⟩

end Failing

/-! ## Checks -/

section Checking

variable {engine : Engine} {memory : Memory} {locals stack : List Value}
  {rest trap : List Ins} {drafted after : Drafted}

theorem trapOnTrue_ok (emitted : Builder.trapOnTrue drafted = some (.ok trap, after)) :
    ∃ failure, trap = [.if_ none failure []] ∧
      Builder.failureInstructions ARITHMETIC_CODE ARITHMETIC_MESSAGE drafted =
        some (.ok failure, after) := by
  rcases Action.ok_of_bind emitted with ⟨failure, between, first, second⟩
  rcases Prod.mk.inj (Option.some.inj second) with ⟨is, rfl⟩
  exact ⟨failure, (Except.ok.inj is).symm, first⟩

/-- What comes of a check, where the condition it computes holds and where it does not. -/
theorem checks {condition : List Ins} {holds : Prop} [Decidable holds] {kept : List Value}
    (plain : condition.all Ins.plain = true)
    (computed : steps engine condition ⟨memory, locals, stack⟩ =
      .ok ⟨memory, kept, .i32 (flag holds) :: stack⟩)
    (emitted : Builder.trapOnTrue drafted = some (.ok trap, after)) (room : 32 ≤ memory.size) :
    (holds → ∃ last, Stops engine (condition ++ trap ++ rest) ⟨memory, locals, stack⟩
        .unreachable last ∧ Says after.strings last ARITHMETIC_CODE ARITHMETIC_MESSAGE) ∧
      (¬holds → Comes engine (condition ++ trap) ⟨memory, locals, stack⟩
        ⟨memory, kept, stack⟩) := by
  rcases trapOnTrue_ok emitted with ⟨failure, rfl, failed⟩
  have reached := comes_of_steps plain computed
  constructor
  · intro yes
    rcases @failure_stops engine memory kept [] failure drafted after _ _ failed room with
      ⟨last, stops, told⟩
    refine ⟨last, ?_, told⟩
    rw [List.append_assoc]
    refine Stops.after reached (Stops.if_ ?_)
    rw [if_pos (fun zero => flag_eq_zero.mp zero yes)]
    exact stops
  · intro no
    refine reached.trans ?_
    show Comes engine _ _ (Machine.leave ⟨memory, kept, []⟩ none stack)
    refine comes_if ?_
    rw [if_neg (fun zero => zero (flag_eq_zero.mpr no))]
    exact runs_nil.mpr rfl

/-- Two comparisons that both have to hold. -/
theorem steps_bothCompare {slot left right : UInt32} {order other : Ins} {x y z : Value}
    {p q : Prop} [Decidable p] [Decidable q]
    (one : locals[slot.toNat]? = some x) (two : locals[left.toNat]? = some y)
    (three : locals[right.toNat]? = some z)
    (ordered : ∀ stack, step engine order ⟨memory, locals, .i64 0 :: x :: stack⟩ =
      .ok ⟨memory, locals, .i32 (flag p) :: stack⟩)
    (compared : ∀ stack, step engine other ⟨memory, locals, z :: y :: stack⟩ =
      .ok ⟨memory, locals, .i32 (flag q) :: stack⟩) :
    steps engine (Builder.bothCompare slot order left other right ++ rest)
        ⟨memory, locals, stack⟩ =
      steps engine rest ⟨memory, locals, .i32 (flag (p ∧ q)) :: stack⟩ := by
  have first : steps engine (Builder.bothCompare slot order left other right ++ rest)
        ⟨memory, locals, stack⟩ =
      steps engine (.i64Const 0 :: order :: .localGet left :: .localGet right :: other ::
        .i32And :: rest) ⟨memory, locals, x :: stack⟩ := steps_get one
  have second : steps engine (.i64Const 0 :: order :: .localGet left :: .localGet right ::
        other :: .i32And :: rest) ⟨memory, locals, x :: stack⟩ =
      step engine order ⟨memory, locals, .i64 0 :: x :: stack⟩ >>=
        steps engine (.localGet left :: .localGet right :: other :: .i32And :: rest) := rfl
  have third (held : List Value) : steps engine (other :: .i32And :: rest)
        ⟨memory, locals, held⟩ =
      step engine other ⟨memory, locals, held⟩ >>= steps engine (.i32And :: rest) := rfl
  have fourth : steps engine (.i32And :: rest)
        ⟨memory, locals, .i32 (flag q) :: .i32 (flag p) :: stack⟩ =
      steps engine rest ⟨memory, locals, .i32 (flag p &&& flag q) :: stack⟩ := rfl
  rw [first, second, ordered]
  show steps engine (.localGet left :: .localGet right :: other :: .i32And :: rest)
    ⟨memory, locals, .i32 (flag p) :: stack⟩ = _
  rw [steps_get two, steps_get three, third, compared, ← flag_and, ← fourth]
  rfl

end Checking

/-! ## Operations -/

/-- The operator of the source that a checked operation is lowered from. -/
def checkedOp : BinaryOp → Option Ast.BinaryOp
  | .addInt => some .add
  | .subInt => some .sub
  | .mulInt => some .mul
  | .divInt => some .div
  | .remInt => some .rem
  | _ => none

/-- The number the interpreter answers, where it has an answer. -/
def answerOf (op : Ast.BinaryOp) (a b : Int64) : Option Int64 :=
  (Eval.intBinary op a b).bind Eval.Value.asInt

theorem checkedInt_asInt (number : Int) :
    (Eval.checkedInt number).bind Eval.Value.asInt =
      if Fits64 number then some (Int64.ofInt number) else none := by
  have same : (Int64.minValue.toInt ≤ number ∧ number ≤ Int64.maxValue.toInt) ↔
      Fits64 number := by
    have least : Int64.minValue.toInt = -2 ^ 63 := rfl
    have most : Int64.maxValue.toInt = 2 ^ 63 - 1 := rfl
    rw [least, most, Fits64]
    omega
  rw [Eval.checkedInt]
  by_cases fits : Fits64 number
  · rw [if_pos (same.mpr fits), if_pos fits]
    rfl
  · rw [if_neg (fun bounds => fits (same.mp bounds)), if_neg fits]
    rfl

/-- What an operator is meant to compute; a quotient is rounded towards zero. -/
def exactly : BinaryOp → Int → Int → Int
  | .addInt, a, b => a + b
  | .subInt, a, b => a - b
  | .mulInt, a, b => a * b
  | .divInt, a, b => a.tdiv b
  | .remInt, a, b => a.tmod b
  | _, _, _ => 0

/-- What the interpreter answers is the exact number. -/
theorem answer_exact {op : BinaryOp} {source : Ast.BinaryOp} {a b number : Int64}
    (checked : checkedOp op = some source) (answered : answerOf source a b = some number) :
    number.toInt = exactly op a.toInt b.toInt := by
  have exact_ {whole : Int}
      (is : (Eval.checkedInt whole).bind Eval.Value.asInt = some number) :
      number.toInt = whole := by
    rw [checkedInt_asInt] at is
    split at is
    · next fits =>
        rw [← Option.some.inj is]
        exact toInt_ofInt64 fits
    · cases is
  cases op
  case addInt =>
    cases checked
    exact exact_ answered
  case subInt =>
    cases checked
    exact exact_ answered
  case mulInt =>
    cases checked
    exact exact_ answered
  case divInt =>
    cases checked
    rw [answerOf, Eval.intBinary] at answered
    split at answered
    · cases answered
    · exact exact_ answered
  case remInt =>
    cases checked
    rw [answerOf, Eval.intBinary] at answered
    split at answered
    · cases answered
    · exact exact_ answered
  all_goals cases checked

/-- What the code of a checked operation comes to: the answer on the stack, or a stop behind
the code and the sentence for arithmetic. -/
def Settles (engine : Engine) (strings : Strings) (code : List Ins) (machine : Machine)
    (memory : Memory) (answer : Option Int64) : Prop :=
  match answer with
  | some number => ∃ kept, Comes engine code machine
      ⟨memory, kept, .i64 number :: machine.stack⟩
  | none => ∃ last, Stops engine code machine .unreachable last ∧
      Says strings last ARITHMETIC_CODE ARITHMETIC_MESSAGE

section Operating

variable {engine : Engine} {builder : Builder} {memory : Memory} {locals stack kept : List Value}
  {left right : UInt32} {a b : Int64} {trap code condition rest : List Ins}
  {drafted after between : Drafted} {holds : Prop} [Decidable holds] {answer : Int64}

/-- A check and what follows it, where it passes. -/
theorem settles_check (kept : List Value) (plain : condition.all Ins.plain = true)
    (computed : steps engine condition ⟨memory, locals, stack⟩ =
      .ok ⟨memory, kept, .i32 (flag holds) :: stack⟩)
    (emitted : Builder.trapOnTrue drafted = some (.ok trap, after)) (room : 32 ≤ memory.size)
    (follows : ¬holds → Comes engine rest ⟨memory, kept, stack⟩
      ⟨memory, kept, .i64 answer :: stack⟩) :
    Settles engine after.strings (condition ++ trap ++ rest) ⟨memory, locals, stack⟩ memory
      (if holds then none else some answer) := by
  rcases @checks engine memory locals stack rest trap drafted after condition holds _ kept plain
    computed emitted room with ⟨stops, passes⟩
  by_cases yes : holds
  · rw [if_pos yes]
    exact stops yes
  · rw [if_neg yes]
    exact ⟨kept, (passes yes).trans (follows yes)⟩

/-- The slots of an operation: its operands, and one that is taken for its result. -/
structure Held (locals : List Value) (left right third : UInt32) (a b : Int64) : Prop where
  one : locals[left.toNat]? = some (.i64 a)
  two : locals[right.toNat]? = some (.i64 b)
  inside : third.toNat < locals.length
  before : left.toNat ≠ third.toNat
  before' : right.toNat ≠ third.toNat

variable {third : UInt32}

theorem Held.put (held : Held locals left right third a b) (value : Value) :
    (locals.set third.toNat value)[left.toNat]? = some (.i64 a) ∧
      (locals.set third.toNat value)[right.toNat]? = some (.i64 b) ∧
        (locals.set third.toNat value)[third.toNat]? = some value := by
  refine ⟨?_, ?_, ?_⟩
  · rw [List.getElem?_set_ne held.before.symm]
    exact held.one
  · rw [List.getElem?_set_ne held.before'.symm]
    exact held.two
  · exact List.getElem?_set_self held.inside

/-- An operation on the operands, into the third slot. -/
theorem steps_into {instruction : Ins} {result : Value} (held : Held locals left right third a b)
    (operated : step engine instruction ⟨memory, locals, .i64 b :: .i64 a :: stack⟩ =
      .ok ⟨memory, locals, result :: stack⟩) :
    steps engine ([.localGet left, .localGet right, instruction, .localSet third] ++ rest)
        ⟨memory, locals, stack⟩ =
      steps engine rest ⟨memory, locals.set third.toNat result, stack⟩ := by
  have next : steps engine (instruction :: .localSet third :: rest)
        ⟨memory, locals, .i64 b :: .i64 a :: stack⟩ =
      step engine instruction ⟨memory, locals, .i64 b :: .i64 a :: stack⟩ >>=
        steps engine (.localSet third :: rest) := rfl
  have first : steps engine
        ([.localGet left, .localGet right, instruction, .localSet third] ++ rest)
        ⟨memory, locals, stack⟩ =
      steps engine (.localGet right :: instruction :: .localSet third :: rest)
        ⟨memory, locals, .i64 a :: stack⟩ := steps_get held.one
  rw [first, steps_get held.two, next, operated, ← steps_set held.inside]
  rfl

theorem comes_get {index : UInt32} {value : Value}
    (found : locals[index.toNat]? = some value) :
    Comes engine [.localGet index] ⟨memory, locals, stack⟩ ⟨memory, locals, value :: stack⟩ :=
  comes_of_steps rfl (steps_get found)

/-- Where a sum or a difference lies on the wrong side, by two comparisons. -/
theorem steps_sides {first second : Ins} {result : Int64} {p q : Prop} [Decidable p]
    [Decidable q] (held : Held locals left right third a b)
    (one : ∀ stack, step engine first
        ⟨memory, locals.set third.toNat (.i64 result), .i64 a :: .i64 result :: stack⟩ =
      .ok ⟨memory, locals.set third.toNat (.i64 result), .i32 (flag p) :: stack⟩)
    (two : ∀ stack, step engine second
        ⟨memory, locals.set third.toNat (.i64 result), .i64 a :: .i64 result :: stack⟩ =
      .ok ⟨memory, locals.set third.toNat (.i64 result), .i32 (flag q) :: stack⟩) :
    steps engine (Builder.bothCompare right .i64GtS third first left ++
        (Builder.bothCompare right .i64LtS third second left ++ [.i32Or]))
        ⟨memory, locals.set third.toNat (.i64 result), stack⟩ =
      .ok ⟨memory, locals.set third.toNat (.i64 result),
        .i32 (flag ((b > 0 ∧ p) ∨ (b < 0 ∧ q))) :: stack⟩ := by
  rcases held.put (.i64 result) with ⟨isLeft, isRight, isThird⟩
  have last (held : List Value) : steps engine [.i32Or]
        ⟨memory, held, .i32 (flag (b < 0 ∧ q)) :: .i32 (flag (b > 0 ∧ p)) :: stack⟩ =
      .ok ⟨memory, held, .i32 (flag (b > 0 ∧ p) ||| flag (b < 0 ∧ q)) :: stack⟩ := rfl
  rw [steps_bothCompare isRight isThird isLeft (fun _ => rfl) one,
    steps_bothCompare isRight isThird isLeft (fun _ => rfl) two, last, flag_or]

/-- A sum and a difference, which are checked by their sides. -/
theorem add_settles (held : Held locals left right third a b)
    (emitted : Builder.trapOnTrue drafted = some (.ok trap, after)) (room : 32 ≤ memory.size) :
    Settles engine after.strings ([.localGet left, .localGet right, .i64Add, .localSet third] ++
        Builder.bothCompare right .i64GtS third .i64LtS left ++
        Builder.bothCompare right .i64LtS third .i64GtS left ++ [.i32Or] ++ trap ++
        [.localGet third]) ⟨memory, locals, stack⟩ memory (answerOf .add a b) := by
  have answers : answerOf .add a b =
      if (b > 0 ∧ a + b < a) ∨ (b < 0 ∧ a + b > a) then none else some (a + b) := by
    have exact_ : Int64.ofInt (a.toInt + b.toInt) = a + b := by
      rw [Int64.ofInt_add, Int64.ofInt_toInt, Int64.ofInt_toInt]
    rw [answerOf, Eval.intBinary, checkedInt_asInt, exact_, ← ite_not]
    exact if_congr add_wraps.symm rfl rfl
  rw [answers]
  refine settles_check _ rfl ?_ emitted room fun _ => comes_get (held.put (.i64 (a + b))).2.2
  rw [List.append_assoc, List.append_assoc, steps_into held rfl]
  exact steps_sides held (fun _ => rfl) fun _ => rfl

theorem sub_settles (held : Held locals left right third a b)
    (emitted : Builder.trapOnTrue drafted = some (.ok trap, after)) (room : 32 ≤ memory.size) :
    Settles engine after.strings ([.localGet left, .localGet right, .i64Sub, .localSet third] ++
        Builder.bothCompare right .i64GtS third .i64GtS left ++
        Builder.bothCompare right .i64LtS third .i64LtS left ++ [.i32Or] ++ trap ++
        [.localGet third]) ⟨memory, locals, stack⟩ memory (answerOf .sub a b) := by
  have answers : answerOf .sub a b =
      if (b > 0 ∧ a - b > a) ∨ (b < 0 ∧ a - b < a) then none else some (a - b) := by
    have exact_ : Int64.ofInt (a.toInt - b.toInt) = a - b := by
      rw [Int64.ofInt_sub, Int64.ofInt_toInt, Int64.ofInt_toInt]
    rw [answerOf, Eval.intBinary, checkedInt_asInt, exact_, ← ite_not]
    exact if_congr sub_wraps.symm rfl rfl
  rw [answers]
  refine settles_check _ rfl ?_ emitted room fun _ => comes_get (held.put (.i64 (a - b))).2.2
  rw [List.append_assoc, List.append_assoc, steps_into held rfl]
  exact steps_sides held (fun _ => rfl) fun _ => rfl

/-- A slot compared with a constant, and with zero. -/
theorem steps_same {index : UInt32} {x : Int64} (found : locals[index.toNat]? = some (.i64 x))
    (constant : Int64) :
    steps engine (.localGet index :: .i64Const constant :: .i64Eq :: rest)
        ⟨memory, locals, stack⟩ =
      steps engine rest ⟨memory, locals, .i32 (flag (x = constant)) :: stack⟩ :=
  (steps_get found).trans rfl

theorem steps_zero {index : UInt32} {x : Int64} (found : locals[index.toNat]? = some (.i64 x)) :
    steps engine (.localGet index :: .i64Eqz :: rest) ⟨memory, locals, stack⟩ =
      steps engine rest ⟨memory, locals, .i32 (flag (x = 0)) :: stack⟩ :=
  (steps_get found).trans rfl

theorem steps_and {p q : Prop} [Decidable p] [Decidable q] :
    steps engine (.i32And :: rest) ⟨memory, locals, .i32 (flag q) :: .i32 (flag p) :: stack⟩ =
      steps engine rest ⟨memory, locals, .i32 (flag (p ∧ q)) :: stack⟩ := by
  rw [← flag_and]
  rfl

theorem steps_or {p q : Prop} [Decidable p] [Decidable q] :
    steps engine (.i32Or :: rest) ⟨memory, locals, .i32 (flag q) :: .i32 (flag p) :: stack⟩ =
      steps engine rest ⟨memory, locals, .i32 (flag (p ∨ q)) :: stack⟩ := by
  rw [← flag_or]
  rfl

/-- A quotient and a remainder, where the machine has them. -/
theorem divided_settles {operation : Ins} {op : Ast.BinaryOp} (result : Int64)
    (one : locals[left.toNat]? = some (.i64 a)) (two : locals[right.toNat]? = some (.i64 b))
    (plain : operation.plain = true)
    (operated : ¬(b = 0 ∨ (a = Int64.minValue ∧ b = -1)) →
      step engine operation ⟨memory, locals, .i64 b :: .i64 a :: stack⟩ =
        .ok ⟨memory, locals, .i64 result :: stack⟩)
    (answers : answerOf op a b =
      if b = 0 ∨ (a = Int64.minValue ∧ b = -1) then none else some result)
    (emitted : Builder.trapOnTrue drafted = some (.ok trap, after)) (room : 32 ≤ memory.size) :
    Settles engine after.strings ([.localGet right, .i64Eqz,
        .localGet left, .i64Const Int64.minValue, .i64Eq,
        .localGet right, .i64Const (-1), .i64Eq, .i32And, .i32Or] ++ trap ++
      [.localGet left, .localGet right, operation]) ⟨memory, locals, stack⟩ memory
      (answerOf op a b) := by
  rw [answers]
  refine settles_check locals rfl ?_ emitted room fun no => ?_
  · rw [steps_zero two, steps_same one, steps_same two, steps_and, steps_or]
    rfl
  · refine comes_of_steps ?_ ?_
    · rw [List.all_cons, List.all_cons, List.all_cons, plain]
      rfl
    · have last : steps engine [operation] ⟨memory, locals, .i64 b :: .i64 a :: stack⟩ =
          step engine operation ⟨memory, locals, .i64 b :: .i64 a :: stack⟩ >>= .ok := rfl
      rw [steps_get one, steps_get two, last, operated no]
      rfl

theorem div_settles (one : locals[left.toNat]? = some (.i64 a))
    (two : locals[right.toNat]? = some (.i64 b))
    (emitted : Builder.checkedBinary.divided left right .i64DivS drafted =
      some (.ok code, after)) (room : 32 ≤ memory.size) :
    Settles engine after.strings code ⟨memory, locals, stack⟩ memory (answerOf .div a b) := by
  rcases Action.ok_of_bind emitted with ⟨trap, between, trapped, rest⟩
  rcases Prod.mk.inj (Option.some.inj rest) with ⟨is, rfl⟩
  rw [← Except.ok.inj is]
  refine divided_settles (a / b) one two rfl ?_ ?_ trapped room
  · intro no
    show (if b = 0 then .error .divideByZero
      else if a = Int64.minValue ∧ b = -1 then .error .overflow
      else .ok (.i64 (a / b)) : Except Wasm.Trap Value).map _ = _
    rw [if_neg fun zero => no (Or.inl zero), if_neg fun least => no (Or.inr least)]
    rfl
  · rw [answerOf, Eval.intBinary]
    by_cases zero : b = 0
    · rw [if_pos zero, if_pos (Or.inl zero)]
      rfl
    · have quotient : ¬(a = Int64.minValue ∧ b = -1) →
          Int64.ofInt (a.toInt.tdiv b.toInt) = a / b := by
        intro defined
        rw [Int64.ofInt_tdiv a.minValue_le_toInt a.toInt_le b.minValue_le_toInt b.toInt_le,
          Int64.ofInt_toInt, Int64.ofInt_toInt]
      rw [if_neg zero, checkedInt_asInt, ← ite_not]
      by_cases least : a = Int64.minValue ∧ b = -1
      · rw [if_pos ((div_wraps zero).mp least), if_pos (Or.inr least)]
      · rw [if_neg fun wraps => least ((div_wraps zero).mpr wraps),
          if_neg (not_or.mpr ⟨zero, least⟩), quotient least]

theorem rem_settles (one : locals[left.toNat]? = some (.i64 a))
    (two : locals[right.toNat]? = some (.i64 b))
    (emitted : Builder.checkedBinary.divided left right .i64RemS drafted =
      some (.ok code, after)) (room : 32 ≤ memory.size) :
    Settles engine after.strings code ⟨memory, locals, stack⟩ memory (answerOf .rem a b) := by
  rcases Action.ok_of_bind emitted with ⟨trap, between, trapped, rest⟩
  rcases Prod.mk.inj (Option.some.inj rest) with ⟨is, rfl⟩
  rw [← Except.ok.inj is]
  refine divided_settles (a % b) one two rfl ?_ ?_ trapped room
  · intro no
    show (if b = 0 then .error .divideByZero else .ok (.i64 (a % b)) :
      Except Wasm.Trap Value).map _ = _
    rw [if_neg fun zero => no (Or.inl zero)]
    rfl
  · have remainder : Int64.ofInt (a.toInt.tmod b.toInt) = a % b := by
      rw [Int64.ofInt_tmod a.minValue_le_toInt a.toInt_le b.minValue_le_toInt b.toInt_le,
        Int64.ofInt_toInt, Int64.ofInt_toInt]
    have fits : b ≠ 0 → Fits64 (a.toInt.tmod b.toInt) := by
      intro nonzero
      have smaller : (a.toInt.tmod b.toInt).natAbs = a.toInt.natAbs % b.toInt.natAbs :=
        Int.natAbs_tmod _ _
      have low := b.le_toInt
      have high := b.toInt_lt
      have less : a.toInt.natAbs % b.toInt.natAbs < b.toInt.natAbs :=
        Nat.mod_lt _ (Int.natAbs_pos.mpr fun zero => nonzero (eq_zero.mpr zero))
      rw [← smaller] at less
      rw [Fits64]
      omega
    rw [answerOf, Eval.intBinary]
    by_cases none_ : b = 0 ∨ (a = Int64.minValue ∧ b = -1)
    · rw [if_pos none_, if_pos none_]
      rfl
    · rw [if_neg none_, if_neg none_, checkedInt_asInt,
        if_pos (fits fun zero => none_ (Or.inl zero)), remainder]

/-- What a stop says is still there when more texts are placed after it. -/
theorem Says.later {last : Memory} {code message : String} {failure : List Ins}
    {more sentence : String} (told : Says drafted.strings last code message)
    (emitted : Builder.failureInstructions more sentence drafted = some (.ok failure, after)) :
    Says after.strings last code message := by
  rcases Prod.mk.inj (Option.some.inj emitted) with ⟨-, rfl⟩
  exact (told.place more).place sentence

theorem Settles.behind {strings : Strings} {first : List Ins} {expected : Option Int64}
    {start : Memory} (comes : Comes engine first ⟨start, locals, stack⟩ ⟨memory, kept, stack⟩)
    (settles : Settles engine strings rest ⟨memory, kept, stack⟩ memory expected) :
    Settles engine strings (first ++ rest) ⟨start, locals, stack⟩ memory expected := by
  cases expected with
  | some number =>
      rcases settles with ⟨last, reached⟩
      exact ⟨last, comes.trans reached⟩
  | none =>
      rcases settles with ⟨last, stops, told⟩
      exact ⟨last, stops.after comes, told⟩

/-- The second check of a product: it divides back, unless a factor is zero. -/
theorem product_settles {failure : List Ins} (one : kept[left.toNat]? = some (.i64 a))
    (two : kept[right.toNat]? = some (.i64 b))
    (three : kept[third.toNat]? = some (.i64 (a * b)))
    (apart : ¬(a = -1 ∧ b = Int64.minValue))
    (emitted : Builder.failureInstructions ARITHMETIC_CODE ARITHMETIC_MESSAGE drafted =
      some (.ok failure, after)) (room : 32 ≤ memory.size) :
    Settles engine after.strings ([.localGet left, .i64Eqz, .localGet right, .i64Eqz, .i32Or,
        .i32Eqz] ++ ([.if_ none [.localGet third, .localGet left, .i64DivS, .localGet right,
          .i64Ne, .if_ none failure []] []] ++ [.localGet third])) ⟨memory, kept, stack⟩ memory
      (if Fits64 (a.toInt * b.toInt) then some (a * b) else none) := by
  have tested : steps engine [.localGet left, .i64Eqz, .localGet right, .i64Eqz, .i32Or,
      .i32Eqz] ⟨memory, kept, stack⟩ =
        .ok ⟨memory, kept, .i32 (flag (flag (a = 0 ∨ b = 0) = 0)) :: stack⟩ := by
    rw [steps_zero one, steps_zero two, steps_or]
    rfl
  have reached := comes_of_steps rfl tested
  -- Past both conditionals the product is left.
  have passes (then_ : List Ins)
      (comes : Comes engine (if flag (flag (a = 0 ∨ b = 0) = 0) ≠ 0 then then_ else [])
        ⟨memory, kept, []⟩ ⟨memory, kept, []⟩) :
      Comes engine ([.if_ none then_ []] ++ [.localGet third])
        ⟨memory, kept, .i32 (flag (flag (a = 0 ∨ b = 0) = 0)) :: stack⟩
        ⟨memory, kept, .i64 (a * b) :: stack⟩ :=
    Comes.trans (comes_if comes) (comes_get three)
  by_cases zeros : a = 0 ∨ b = 0
  · have fits : Fits64 (a.toInt * b.toInt) := by
      have nothing : a.toInt * b.toInt = 0 := by
        rcases zeros with rfl | rfl
        · exact Int.zero_mul _
        · exact Int.mul_zero _
      rw [nothing, Fits64]
      omega
    rw [if_pos fits]
    refine ⟨kept, reached.trans (passes _ ?_)⟩
    rw [if_neg fun zero => zero (flag_eq_zero.mpr fun none_ => flag_eq_zero.mp none_ zeros)]
    exact runs_nil.mpr rfl
  · rw [not_or] at zeros
    have opened : flag (flag (a = 0 ∨ b = 0) = 0) ≠ 0 := fun zero =>
      flag_eq_zero.mp zero (flag_eq_zero.mpr (not_or.mpr zeros))
    have quotient : step engine .i64DivS ⟨memory, kept, [.i64 a, .i64 (a * b)]⟩ =
        .ok ⟨memory, kept, [.i64 (a * b / a)]⟩ := by
      have defined : ¬(a * b = Int64.minValue ∧ a = -1) := by
        rintro ⟨least, rfl⟩
        have back : b = Int64.minValue := calc
          b = (-1 * -1) * b := (Int64.one_mul b).symm
          _ = -1 * (-1 * b) := Int64.mul_assoc (-1) (-1) b
          _ = -1 * Int64.minValue := by rw [least]
          _ = Int64.minValue := rfl
        exact apart ⟨rfl, back⟩
      show (if a = 0 then .error .divideByZero
        else if a * b = Int64.minValue ∧ a = -1 then .error .overflow
        else .ok (.i64 (a * b / a)) : Except Wasm.Trap Value).map _ = _
      rw [if_neg zeros.1, if_neg defined]
      rfl
    have divided : steps engine [.localGet third, .localGet left, .i64DivS, .localGet right,
        .i64Ne] ⟨memory, kept, []⟩ = .ok ⟨memory, kept, [.i32 (flag (a * b / a ≠ b))]⟩ := by
      have last (rest : List Ins) : steps engine (.i64DivS :: rest)
            ⟨memory, kept, [.i64 a, .i64 (a * b)]⟩ =
          step engine .i64DivS ⟨memory, kept, [.i64 a, .i64 (a * b)]⟩ >>= steps engine rest :=
        rfl
      rw [steps_get three, steps_get one, last, quotient]
      exact (steps_get two).trans rfl
    have inner := comes_of_steps rfl divided
    by_cases fits : Fits64 (a.toInt * b.toInt)
    · rw [if_pos fits]
      refine ⟨kept, reached.trans (passes _ ?_)⟩
      rw [if_pos opened]
      refine Comes.trans inner (show Comes engine [.if_ none failure []] _
        (Machine.leave ⟨memory, kept, []⟩ none []) from comes_if ?_)
      rw [if_neg fun zero => zero (flag_eq_zero.mpr fun wraps =>
        (mul_wraps zeros.1 apart).mp wraps fits)]
      exact runs_nil.mpr rfl
    · rw [if_neg fits]
      rcases @failure_stops engine memory kept [] failure drafted after _ _ emitted room with
        ⟨last, stops, told⟩
      refine ⟨last, Stops.after reached (Stops.if_ ?_), told⟩
      rw [if_pos opened]
      refine Stops.after inner
        (show Stops engine [.if_ none failure []] _ _ _ from Stops.if_ ?_)
      rw [if_pos fun zero => flag_eq_zero.mp zero ((mul_wraps zeros.1 apart).mpr fits)]
      exact stops

theorem mul_settles {failure : List Ins} (held : Held locals left right third a b)
    (emitted : Builder.trapOnTrue drafted = some (.ok trap, between))
    (failed : Builder.failureInstructions ARITHMETIC_CODE ARITHMETIC_MESSAGE between =
      some (.ok failure, after)) (room : 32 ≤ memory.size) :
    Settles engine after.strings ([.localGet left, .localGet right, .i64Mul, .localSet third,
        .localGet left, .i64Const (-1), .i64Eq,
        .localGet right, .i64Const Int64.minValue, .i64Eq, .i32And] ++ trap ++
      ([.localGet left, .i64Eqz, .localGet right, .i64Eqz, .i32Or, .i32Eqz] ++
        ([.if_ none [.localGet third, .localGet left, .i64DivS, .localGet right, .i64Ne,
          .if_ none failure []] []] ++ [.localGet third]))) ⟨memory, locals, stack⟩ memory
      (answerOf .mul a b) := by
  have answers : answerOf .mul a b =
      if Fits64 (a.toInt * b.toInt) then some (a * b) else none := by
    rw [answerOf, Eval.intBinary, checkedInt_asInt, Int64.ofInt_mul, Int64.ofInt_toInt,
      Int64.ofInt_toInt]
  rcases held.put (.i64 (a * b)) with ⟨isLeft, isRight, isThird⟩
  have computed : steps engine ([.localGet left, .localGet right, .i64Mul, .localSet third] ++
        [.localGet left, .i64Const (-1), .i64Eq,
          .localGet right, .i64Const Int64.minValue, .i64Eq, .i32And]) ⟨memory, locals, stack⟩ =
      .ok ⟨memory, locals.set third.toNat (.i64 (a * b)),
        .i32 (flag (a = -1 ∧ b = Int64.minValue)) :: stack⟩ := by
    rw [steps_into held rfl, steps_same isLeft, steps_same isRight, steps_and]
    rfl
  rcases checks rfl computed emitted room with ⟨stops, passes⟩
  rw [answers]
  by_cases least : a = -1 ∧ b = Int64.minValue
  · have out : ¬Fits64 (a.toInt * b.toInt) := by
      rw [least.1, least.2]
      decide
    rw [if_neg out]
    rcases stops least with ⟨last, stops, told⟩
    exact ⟨last, stops, told.later failed⟩
  · exact Settles.behind (passes least)
      (product_settles isLeft isRight isThird least failed room)

/-- A number negated, which only the least one cannot be. -/
theorem negate_settles {slot : UInt32} (one : locals[slot.toNat]? = some (.i64 a))
    (emitted : Builder.checkedNegate slot drafted = some (.ok code, after))
    (room : 32 ≤ memory.size) :
    Settles engine after.strings code ⟨memory, locals, stack⟩ memory
      ((Eval.checkedInt (-a.toInt)).bind Eval.Value.asInt) := by
  have answers : (Eval.checkedInt (-a.toInt)).bind Eval.Value.asInt =
      if a = Int64.minValue then none else some (0 - a) := by
    have low := a.le_toInt
    have high := a.toInt_lt
    have negated : Int64.ofInt (-a.toInt) = 0 - a := by
      rw [Int64.ofInt_neg, Int64.ofInt_toInt, Int64.zero_sub]
    have wraps : a = Int64.minValue ↔ ¬Fits64 (-a.toInt) := by
      rw [eq_minValue, Fits64]
      omega
    rw [checkedInt_asInt, negated, ← ite_not]
    exact if_congr wraps.symm rfl rfl
  rcases Action.ok_of_bind emitted with ⟨trap, between, trapped, rest⟩
  rcases Prod.mk.inj (Option.some.inj rest) with ⟨is, rfl⟩
  rw [← Except.ok.inj is, answers]
  refine settles_check locals rfl ?_ trapped room fun _ => ?_
  · rw [steps_same one]
    rfl
  · refine comes_of_steps rfl ?_
    have first : steps engine [.i64Const 0, .localGet slot, .i64Sub] ⟨memory, locals, stack⟩ =
        steps engine [.localGet slot, .i64Sub] ⟨memory, locals, .i64 0 :: stack⟩ := rfl
    rw [first, steps_get one]
    rfl

/-- What the check of an operator comes to, on operands in two slots that were taken before. -/
theorem check_settles {op : BinaryOp} {source : Ast.BinaryOp} (checked : checkedOp op = some source)
    (emitted : builder.checkedBinary op left right drafted = some (.ok code, after))
    (taken : left.toNat < builder.params + drafted.extraLocals.length)
    (taken' : right.toNat < builder.params + drafted.extraLocals.length)
    (declared : builder.params + after.extraLocals.length ≤ locals.length)
    (counted : locals.length < 2 ^ 32) (one : locals[left.toNat]? = some (.i64 a))
    (two : locals[right.toNat]? = some (.i64 b)) (room : 32 ≤ memory.size) :
    Settles engine after.strings code ⟨memory, locals, stack⟩ memory (answerOf source a b) := by
  -- The slot for the result comes behind those that were taken.
  have apart {between : Drafted} (longer : Longer between after)
      (one_more : between.extraLocals.length = drafted.extraLocals.length + 1) :
      Held locals left right (.ofNat (builder.params + drafted.extraLocals.length)) a b := by
    have below : builder.params + drafted.extraLocals.length < locals.length := by
      rw [Longer, one_more] at longer
      omega
    have number : (UInt32.ofNat (builder.params + drafted.extraLocals.length)).toNat =
        builder.params + drafted.extraLocals.length := UInt32.toNat_ofNat_of_lt' (by
      rw [UInt32.size]
      omega)
    exact ⟨one, two, by omega, by omega, by omega⟩
  have grown : (drafted.extraLocals ++ [ValType.i64]).length = drafted.extraLocals.length + 1 :=
    List.length_append
  cases op
  case addInt =>
    rcases Action.ok_of_bind emitted with ⟨third, between, taken, emitted⟩
    rcases Prod.mk.inj (Option.some.inj taken) with ⟨is, rfl⟩
    rcases Action.ok_of_bind emitted with ⟨trap, later, trapped, emitted⟩
    rcases Prod.mk.inj (Option.some.inj emitted) with ⟨is', rfl⟩
    rw [← Except.ok.inj is', ← Except.ok.inj is, ← Option.some.inj checked]
    exact add_settles (apart (longer_trap trapped) grown) trapped room
  case subInt =>
    rcases Action.ok_of_bind emitted with ⟨third, between, taken, emitted⟩
    rcases Prod.mk.inj (Option.some.inj taken) with ⟨is, rfl⟩
    rcases Action.ok_of_bind emitted with ⟨trap, later, trapped, emitted⟩
    rcases Prod.mk.inj (Option.some.inj emitted) with ⟨is', rfl⟩
    rw [← Except.ok.inj is', ← Except.ok.inj is, ← Option.some.inj checked]
    exact sub_settles (apart (longer_trap trapped) grown) trapped room
  case mulInt =>
    rcases Action.ok_of_bind emitted with ⟨third, between, taken, emitted⟩
    rcases Prod.mk.inj (Option.some.inj taken) with ⟨is, rfl⟩
    rcases Action.ok_of_bind emitted with ⟨trap, later, trapped, emitted⟩
    rcases Action.ok_of_bind emitted with ⟨failure, last, failed, emitted⟩
    rcases Prod.mk.inj (Option.some.inj emitted) with ⟨is', rfl⟩
    rw [← Except.ok.inj is', ← Except.ok.inj is, ← Option.some.inj checked]
    exact mul_settles (apart (longer_trans _ _ _ (longer_trap trapped)
      (longer_failure _ _ failed)) grown) trapped failed room
  case divInt =>
    rw [← Option.some.inj checked]
    exact div_settles one two emitted room
  case remInt =>
    rw [← Option.some.inj checked]
    exact rem_settles one two emitted room
  all_goals cases checked

end Operating

/-! ## Whole expressions -/

section Whole

variable {builder : Builder} {code : List Ins} {drafted after : Drafted}

/-- The slot that is taken next, or after some more. -/
def slotAfter (builder : Builder) (drafted : Drafted) (more : Nat) : UInt32 :=
  .ofNat (builder.params + (drafted.extraLocals.length + more))

/-- An operator's code is the code of its operands, each into a slot, and a check. -/
theorem binary_parts {op : BinaryOp} {source : Ast.BinaryOp} {left right : Expr} {span : Ast.Span}
    (checked : checkedOp op = some source)
    (emitted : builder.expr (.binary op left right span) drafted = some (.ok code, after)) :
    ∃ first second check between later last,
      code = first ++ [.localSet (slotAfter builder drafted 0)] ++
          (second ++ [.localSet (slotAfter builder drafted 1)]) ++ check ∧
        builder.expr left between = some (.ok first, later) ∧
          builder.expr right later = some (.ok second, last) ∧
            builder.checkedBinary op (slotAfter builder drafted 0) (slotAfter builder drafted 1)
                last = some (.ok check, after) ∧
              between.extraLocals.length = drafted.extraLocals.length + 2 := by
  have unfolded : builder.expr (.binary op left right span) = (do
      let leftSlot ← builder.temporary .i64
      let rightSlot ← builder.temporary .i64
      let first ← builder.expr left
      let second ← builder.expr right
      let check ← builder.checkedBinary op leftSlot rightSlot
      pure (first ++ [.localSet leftSlot] ++ second ++ [.localSet rightSlot] ++ check)) := by
    cases op <;> first | exact absurd checked.symm (Option.some_ne_none _) | simp only [Builder.expr]
  rw [unfolded] at emitted
  rcases Action.ok_of_bind emitted with ⟨leftSlot, between, taken, emitted⟩
  rcases Prod.mk.inj (Option.some.inj taken) with ⟨is, rfl⟩
  rcases Action.ok_of_bind emitted with ⟨rightSlot, between, taken, emitted⟩
  rcases Prod.mk.inj (Option.some.inj taken) with ⟨is', rfl⟩
  rcases Action.ok_of_bind emitted with ⟨first, later, one, emitted⟩
  rcases Action.ok_of_bind emitted with ⟨second, last, two, emitted⟩
  rcases Action.ok_of_bind emitted with ⟨check, done, three, emitted⟩
  rcases Prod.mk.inj (Option.some.inj emitted) with ⟨same, rfl⟩
  have counted : (drafted.extraLocals ++ [ValType.i64]).length =
      drafted.extraLocals.length + 1 := List.length_append
  have isLeft : leftSlot = slotAfter builder drafted 0 := (Except.ok.inj is).symm
  have isRight : rightSlot = slotAfter builder drafted 1 := by
    rw [← Except.ok.inj is', slotAfter, ← counted]
    rfl
  rw [isLeft, isRight] at same
  rw [isLeft, isRight] at three
  refine ⟨first, second, check, _, later, last, ?_, one, two, three, ?_⟩
  · rw [← Except.ok.inj same,
      List.append_assoc (first ++ [Ins.localSet (slotAfter builder drafted 0)]) second]
  · show (drafted.extraLocals ++ [ValType.i64] ++ [ValType.i64]).length = _
    rw [List.length_append, counted]
    rfl

/-- A minus is the code of its operand, into a slot, and a check. -/
theorem negate_parts {operand : Expr}
    (emitted : builder.expr (.unary .negate operand) drafted = some (.ok code, after)) :
    ∃ first check between last,
      code = first ++ [.localSet (slotAfter builder drafted 0)] ++ check ∧
        builder.expr operand between = some (.ok first, last) ∧
          Builder.checkedNegate (slotAfter builder drafted 0) last = some (.ok check, after) := by
  have unfolded : builder.expr (.unary .negate operand) = (do
      let slot ← builder.temporary .i64
      let value ← builder.expr operand
      let negated ← Builder.checkedNegate slot
      pure (value ++ [.localSet slot] ++ negated)) := by
    rw [Builder.expr]
  rw [unfolded] at emitted
  rcases Action.ok_of_bind emitted with ⟨slot, between, taken, emitted⟩
  rcases Action.ok_of_bind emitted with ⟨first, last, one, emitted⟩
  rcases Action.ok_of_bind emitted with ⟨check, done, two, emitted⟩
  rcases Prod.mk.inj (Option.some.inj emitted) with ⟨same, rfl⟩
  have is : slot = slotAfter builder drafted 0 :=
    (Except.ok.inj (Prod.mk.inj (Option.some.inj taken)).1).symm
  rw [is] at same two
  exact ⟨first, check, between, last, (Except.ok.inj same).symm, one, two⟩

/-- Code that puts a number into a slot. -/
def Fills (engine : Engine) (code : List Ins) (start : Machine) (slot : UInt32)
    (number : Int64) (memory : Memory) (locals : List Value) : Prop :=
  ∃ held, Comes engine code start ⟨memory, held, .i64 number :: start.stack⟩ ∧
    slot.toNat < held.length ∧ locals = held.set slot.toNat (.i64 number)

theorem Fills.comes {engine : Engine} {start : Machine} {slot : UInt32} {number : Int64}
    {memory : Memory} {locals : List Value}
    (fills : Fills engine code start slot number memory locals) :
    Comes engine (code ++ [.localSet slot]) start ⟨memory, locals, start.stack⟩ ∧
      locals[slot.toNat]? = some (.i64 number) := by
  rcases fills with ⟨held, reached, inside, rfl⟩
  exact ⟨reached.trans (comes_of_steps rfl (steps_set inside)), List.getElem?_set_self inside⟩

/-- Whatever its operands' code does to come to two numbers, the code of `+`, `-`, `*`, `/` or
`%` leaves the number that the interpreter answers, the exact one; where it answers none the
code traps behind the code and the sentence for arithmetic.  So does unary minus. -/
theorem arithmetic_checked (builder : Builder) (drafted after : Drafted) (code : List Ins) :
    (∀ op source left right span, checkedOp op = some source →
      builder.expr (.binary op left right span) drafted = some (.ok code, after) →
        ∃ first second check,
          code = first ++ [.localSet (slotAfter builder drafted 0)] ++
              (second ++ [.localSet (slotAfter builder drafted 1)]) ++ check ∧
            (∃ one two, builder.expr left one = some (.ok first, two)) ∧
              (∃ one two, builder.expr right one = some (.ok second, two)) ∧
                ∀ engine start memory locals last kept a b,
                  Fills engine first start (slotAfter builder drafted 0) a memory locals →
                    Fills engine second ⟨memory, locals, start.stack⟩
                        (slotAfter builder drafted 1) b last kept →
                      kept[(slotAfter builder drafted 0).toNat]? = some (.i64 a) →
                        32 ≤ last.size →
                        builder.params + after.extraLocals.length ≤ kept.length →
                          kept.length < 2 ^ 32 →
                            Settles engine after.strings code start last
                                (answerOf source a b) ∧
                              ∀ number, answerOf source a b = some number →
                                number.toInt = exactly op a.toInt b.toInt) ∧
      ∀ operand, builder.expr (.unary .negate operand) drafted = some (.ok code, after) →
        ∃ first check, code = first ++ [.localSet (slotAfter builder drafted 0)] ++ check ∧
          (∃ one two, builder.expr operand one = some (.ok first, two)) ∧
            ∀ engine start memory locals a,
              Fills engine first start (slotAfter builder drafted 0) a memory locals →
                32 ≤ memory.size → Settles engine after.strings code start memory
                ((Eval.checkedInt (-a.toInt)).bind Eval.Value.asInt) := by
  constructor
  · intro op source left right span checked emitted
    rcases binary_parts checked emitted with ⟨first, second, check, between, later, final, rfl,
      one, two, three, counted⟩
    refine ⟨first, second, check, rfl, ⟨_, _, one⟩, ⟨_, _, two⟩, ?_⟩
    intro engine start memory locals last kept a b fills fills' stays room declared small
    have longer : Longer between final :=
      longer_trans _ _ _ (longer_expr builder left one) (longer_expr builder right two)
    have longer' : Longer final after := longer_checked op _ _ three
    rw [Longer] at longer longer'
    have number {slot : Nat} (below : slot < kept.length) : (UInt32.ofNat slot).toNat = slot :=
      UInt32.toNat_ofNat_of_lt' (by rw [UInt32.size]; omega)
    refine ⟨Settles.behind (fills.comes.1.trans fills'.comes.1) ?_,
      fun number => answer_exact checked⟩
    refine check_settles checked three ?_ ?_ declared small stays fills'.comes.2 room
    · rw [slotAfter, number (by omega)]
      omega
    · rw [slotAfter, number (by omega)]
      omega
  · intro operand emitted
    rcases negate_parts emitted with ⟨first, check, between, final, rfl, one, two⟩
    refine ⟨first, check, rfl, ⟨_, _, one⟩, ?_⟩
    intro engine start memory locals a fills room
    exact Settles.behind fills.comes.1 (negate_settles fills.comes.2 two room)

end Whole

/-! ## An operator and a minus -/

namespace Sum

theorem uncounted (layout : Layout) (listed : layout ∈ []) : layout.variants.length < 2 ^ 63 :=
  absurd listed List.not_mem_nil

theorem page_small : 1 ≤ 16384 := by decide

theorem blank (address : Nat) (_ : 1 * page ≤ address) : (fun _ => 0 : Nat → UInt8) address = 0 :=
  rfl

/-- A program of nothing, and a function of nothing in it. -/
def builder : Builder where
  program := ⟨[], [], [], uncounted⟩
  function := ⟨"main", [], .int, [], .of .unit⟩
  signatures := []
  imports := []
  shift := 0
  helpers := fun _ => none
  equals := []
  hashes := []
  lowercase := id

def engine : Engine where
  module := {
    types := []
    imports := []
    funcs := []
    exports := []
    memoryPages := some 1
    exportedMemory := none
    data := []
    table := []
    names := [] }
  ceiling := 1
  small := page_small

def memory : Memory := ⟨fun _ => 0, 1, blank⟩

def span : Ast.Span := ⟨0, 5⟩

def start : Drafted := ⟨⟨64, [], []⟩, [], []⟩

theorem fills_constant {locals : List Value} {slot : UInt32} {number : Int64}
    (inside : slot.toNat < locals.length) :
    Fills engine [.i64Const number] ⟨memory, locals, []⟩ slot number memory
      (locals.set slot.toNat (.i64 number)) :=
  ⟨locals, comes_of_steps rfl rfl, inside, rfl⟩

theorem expr_int {number : Int64} {first : List Ins} {one two : Drafted}
    (emitted : builder.expr (.int number) one = some (.ok first, two)) :
    first = [.i64Const number] := by
  rw [Builder.expr] at emitted
  rcases Prod.mk.inj (Option.some.inj emitted) with ⟨is, -⟩
  exact (Except.ok.inj is).symm

/-- `1 + 2` leaves three, and minus the least number stops. -/
theorem arithmetic_checked_sum :
    (∃ code kept, Comes engine code ⟨memory, [.i64 0, .i64 0, .i64 0], []⟩
        ⟨memory, kept, [.i64 3]⟩) ∧
      ∃ code last, Stops engine code ⟨memory, [.i64 0], []⟩ .unreachable last := by
  constructor
  · have emitted : ∃ code after,
        builder.expr (.binary .addInt (.int 1) (.int 2) span) start = some (.ok code, after) ∧
          after.extraLocals.length = 3 := ⟨_, _, rfl, rfl⟩
    rcases emitted with ⟨code, after, emitted, taken⟩
    rcases (arithmetic_checked builder start after code).1 .addInt .add (.int 1) (.int 2) span rfl
      emitted with ⟨first, second, check, -, ⟨one, two, isFirst⟩, ⟨three, four, isSecond⟩,
        settles⟩
    have room : 32 ≤ memory.size := by decide
    have declared : builder.params + after.extraLocals.length ≤ 3 := by
      rw [taken]
      decide
    have filled : Fills engine first ⟨memory, [.i64 0, .i64 0, .i64 0], []⟩
        (slotAfter builder start 0) 1 memory [.i64 1, .i64 0, .i64 0] := by
      rw [expr_int isFirst]
      exact fills_constant (by decide)
    have filled' : Fills engine second ⟨memory, [.i64 1, .i64 0, .i64 0], []⟩
        (slotAfter builder start 1) 2 memory [.i64 1, .i64 2, .i64 0] := by
      rw [expr_int isSecond]
      exact fills_constant (by decide)
    rcases (settles engine _ _ _ _ _ 1 2 filled filled' rfl room declared (by decide)).1 with
      ⟨kept, reached⟩
    exact ⟨code, kept, reached⟩
  · have emitted : ∃ code after,
        builder.expr (.unary .negate (.int Int64.minValue)) start = some (.ok code, after) :=
      ⟨_, _, rfl⟩
    rcases emitted with ⟨code, after, emitted⟩
    rcases (arithmetic_checked builder start after code).2 (.int Int64.minValue) emitted with
      ⟨first, check, -, ⟨one, two, isFirst⟩, settles⟩
    have room : 32 ≤ memory.size := by decide
    have filled : Fills engine first ⟨memory, [.i64 0], []⟩ (slotAfter builder start 0)
        Int64.minValue memory [.i64 Int64.minValue] := by
      rw [expr_int isFirst]
      exact fills_constant (by decide)
    rcases settles engine _ _ _ Int64.minValue filled room with ⟨last, stops, -⟩
    exact ⟨code, last, stops⟩

end Sum

end Deed.Codegen
