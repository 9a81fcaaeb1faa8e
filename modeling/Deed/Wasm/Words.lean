import Deed.Wasm.Logic

/-!
# Words

What the instructions do to the words that compiled code holds: addresses, counts
and bytes are natural numbers in an `i32`, and values are integers in an `i64`.
With the rules here a straight line of code is run by rewriting.
-/

namespace Deed.Wasm

variable {engine : Engine} {rest : List Ins} {post : Outcome → Prop}
  {memory : Memory} {locals stack : List Value}

/-- A natural number in an `i32`. -/
def word32 (number : Nat) : Value := .i32 (Int32.ofNat number)

/-- An integer in an `i64`. -/
def word64 (number : Int) : Value := .i64 (Int64.ofInt number)

/-- The integers that an `i64` holds. -/
def Fits64 (number : Int) : Prop := -2 ^ 63 ≤ number ∧ number < 2 ^ 63

theorem toInt_ofInt64 {number : Int} (fits : Fits64 number) :
    (Int64.ofInt number).toInt = number :=
  Int64.toInt_ofInt_of_le fits.1 fits.2

theorem ofNat_inj32 {a b : Nat} (small : a < 2 ^ 32) (small' : b < 2 ^ 32) :
    Int32.ofNat a = Int32.ofNat b ↔ a = b := by
  constructor
  · intro same
    have words : (Int32.ofNat a).toUInt32.toNat = (Int32.ofNat b).toUInt32.toNat := by
      rw [same]
    rw [Int32.toUInt32_ofNat', Int32.toUInt32_ofNat', UInt32.toNat_ofNat',
      UInt32.toNat_ofNat', Nat.mod_eq_of_lt small, Nat.mod_eq_of_lt small'] at words
    exact words
  · rintro rfl
    rfl

/-! ## Locals and constants -/

@[simp]
theorem runs_localGet {index : UInt32} :
    Runs engine (.localGet index :: rest) ⟨memory, locals, stack⟩ post ↔
      (locals[index.toNat]?).elim (post (.trapped .invalid)) fun value =>
        Runs engine rest ⟨memory, locals, value :: stack⟩ post := by
  rw [runs_plain rfl]
  dsimp only [step]
  cases locals[index.toNat]? <;> rfl

@[simp]
theorem runs_localSet {index : UInt32} {value : Value} :
    Runs engine (.localSet index :: rest) ⟨memory, locals, value :: stack⟩ post ↔
      if index.toNat < locals.length then
        Runs engine rest ⟨memory, locals.set index.toNat value, stack⟩ post
      else post (.trapped .invalid) := by
  rw [runs_plain rfl]
  show Stepped engine rest post (if index.toNat < locals.length then
    .ok ⟨memory, locals.set index.toNat value, stack⟩ else .error .invalid) ↔ _
  split <;> rfl

@[simp]
theorem runs_i32Const {number : Nat} :
    Runs engine (.i32Const (Int32.ofNat number) :: rest) ⟨memory, locals, stack⟩ post ↔
      Runs engine rest ⟨memory, locals, word32 number :: stack⟩ post :=
  runs_plain rfl

@[simp]
theorem runs_i32Const_literal {number : Nat} :
    Runs engine (.i32Const (no_index (OfNat.ofNat number)) :: rest)
        ⟨memory, locals, stack⟩ post ↔
      Runs engine rest ⟨memory, locals, word32 (OfNat.ofNat number) :: stack⟩ post :=
  runs_plain rfl

@[simp]
theorem runs_i32Const_negative {number : Nat} :
    Runs engine (.i32Const (-(no_index (OfNat.ofNat number))) :: rest)
        ⟨memory, locals, stack⟩ post ↔
      Runs engine rest ⟨memory, locals, .i32 (-(no_index (OfNat.ofNat number))) :: stack⟩
        post :=
  runs_plain rfl

@[simp]
theorem zero_i32 : Value.zero .i32 = word32 0 := rfl

@[simp]
theorem zero_i64 : Value.zero .i64 = word64 0 := rfl

@[simp]
theorem runs_i64Const {number : Nat} :
    Runs engine (.i64Const (Int64.ofNat number) :: rest) ⟨memory, locals, stack⟩ post ↔
      Runs engine rest ⟨memory, locals, word64 number :: stack⟩ post := by
  have same : word64 number = .i64 (Int64.ofNat number) :=
    congrArg Value.i64 Int64.ofInt_eq_ofNat
  rw [runs_plain rfl, same]
  rfl

@[simp]
theorem runs_unreachable :
    Runs engine (.unreachable :: rest) ⟨memory, locals, stack⟩ post ↔
      post (.trapped .unreachable) :=
  runs_plain rfl

/-! ## Numbers in an `i32` -/

section Narrow

variable {a b : Nat}

@[simp]
theorem runs_i32Add :
    Runs engine (.i32Add :: rest) ⟨memory, locals, word32 b :: word32 a :: stack⟩ post ↔
      Runs engine rest ⟨memory, locals, word32 (a + b) :: stack⟩ post := by
  have sum : word32 (a + b) = .i32 (Int32.ofNat a + Int32.ofNat b) :=
    congrArg Value.i32 (Int32.ofNat_add a b)
  rw [runs_plain rfl, sum]
  rfl

@[simp]
theorem runs_i32Sub (below : b ≤ a) :
    Runs engine (.i32Sub :: rest) ⟨memory, locals, word32 b :: word32 a :: stack⟩ post ↔
      Runs engine rest ⟨memory, locals, word32 (a - b) :: stack⟩ post := by
  have difference : word32 (a - b) = .i32 (Int32.ofNat a - Int32.ofNat b) :=
    congrArg Value.i32 (Int32.ofNat_sub a b below)
  rw [runs_plain rfl, difference]
  rfl

@[simp]
theorem runs_i32Mul :
    Runs engine (.i32Mul :: rest) ⟨memory, locals, word32 b :: word32 a :: stack⟩ post ↔
      Runs engine rest ⟨memory, locals, word32 (a * b) :: stack⟩ post := by
  have product : word32 (a * b) = .i32 (Int32.ofNat a * Int32.ofNat b) :=
    congrArg Value.i32 (Int32.ofNat_mul a b)
  rw [runs_plain rfl, product]
  rfl

theorem boolean_congr {p q : Prop} [Decidable p] [Decidable q] (same : p ↔ q) :
    boolean p = boolean q := by
  rw [boolean, boolean]
  congr 2
  exact propext same

@[simp]
theorem runs_i32Eq (small : a < 2 ^ 32) (small' : b < 2 ^ 32) :
    Runs engine (.i32Eq :: rest) ⟨memory, locals, word32 b :: word32 a :: stack⟩ post ↔
      Runs engine rest ⟨memory, locals, boolean (a = b) :: stack⟩ post := by
  rw [runs_plain rfl, ← boolean_congr (ofNat_inj32 small small')]
  rfl

/-- The refusal to grow is no number of pages. -/
@[simp]
theorem runs_i32Eq_minus (small : a < 2 ^ 31) :
    Runs engine (.i32Eq :: rest) ⟨memory, locals, .i32 (-1) :: word32 a :: stack⟩ post ↔
      Runs engine rest ⟨memory, locals, boolean False :: stack⟩ post := by
  have never : Int32.ofNat a = -1 ↔ False := by
    have largest : (-1 : Int32) = Int32.ofNat (2 ^ 32 - 1) := by decide
    rw [largest, ofNat_inj32 (by omega) (by decide)]
    constructor
    · intro same
      omega
    · exact False.elim
  rw [runs_plain rfl, ← boolean_congr never]
  rfl

@[simp]
theorem runs_i32Eq_refused :
    Runs engine (.i32Eq :: rest) ⟨memory, locals, .i32 (-1) :: .i32 (-1) :: stack⟩ post ↔
      Runs engine rest ⟨memory, locals, boolean True :: stack⟩ post :=
  runs_plain rfl

@[simp]
theorem runs_i32Ne (small : a < 2 ^ 32) (small' : b < 2 ^ 32) :
    Runs engine (.i32Ne :: rest) ⟨memory, locals, word32 b :: word32 a :: stack⟩ post ↔
      Runs engine rest ⟨memory, locals, boolean (a ≠ b) :: stack⟩ post := by
  rw [runs_plain rfl, ← boolean_congr (ofNat_inj32 small small').not]
  rfl

@[simp]
theorem runs_i32LtS (small : a < 2 ^ 31) (small' : b < 2 ^ 31) :
    Runs engine (.i32LtS :: rest) ⟨memory, locals, word32 b :: word32 a :: stack⟩ post ↔
      Runs engine rest ⟨memory, locals, boolean (a < b) :: stack⟩ post := by
  rw [runs_plain rfl, ← boolean_congr (Int32.ofNat_lt_iff_lt small small')]
  rfl

@[simp]
theorem runs_i32GtS (small : a < 2 ^ 31) (small' : b < 2 ^ 31) :
    Runs engine (.i32GtS :: rest) ⟨memory, locals, word32 b :: word32 a :: stack⟩ post ↔
      Runs engine rest ⟨memory, locals, boolean (b < a) :: stack⟩ post := by
  rw [runs_plain rfl, ← boolean_congr (Int32.ofNat_lt_iff_lt small' small)]
  rfl

@[simp]
theorem runs_i32GeS (small : a < 2 ^ 31) (small' : b < 2 ^ 31) :
    Runs engine (.i32GeS :: rest) ⟨memory, locals, word32 b :: word32 a :: stack⟩ post ↔
      Runs engine rest ⟨memory, locals, boolean (b ≤ a) :: stack⟩ post := by
  rw [runs_plain rfl, ← boolean_congr (Int32.ofNat_le_iff_le small' small)]
  rfl

@[simp]
theorem runs_i32Eqz (small : a < 2 ^ 32) :
    Runs engine (.i32Eqz :: rest) ⟨memory, locals, word32 a :: stack⟩ post ↔
      Runs engine rest ⟨memory, locals, boolean (a = 0) :: stack⟩ post := by
  rw [runs_plain rfl, ← boolean_congr (ofNat_inj32 small (by decide))]
  rfl

@[simp]
theorem runs_i64ExtendI32S (small : a < 2 ^ 31) :
    Runs engine (.i64ExtendI32S :: rest) ⟨memory, locals, word32 a :: stack⟩ post ↔
      Runs engine rest ⟨memory, locals, word64 a :: stack⟩ post := by
  have widened : (Int32.ofNat a).toInt64 = Int64.ofInt a := by
    rw [Int64.ofInt_eq_ofNat]
    have most : Int32.maxValue.toInt = 2147483647 := rfl
    exact Int32.toInt64_ofNat' (by omega)
  rw [runs_plain rfl, word64, ← widened]
  rfl

end Narrow

/-! ## Truth values -/

section Truth

variable {p q : Prop} [Decidable p] [Decidable q]

@[simp]
theorem runs_i32Eqz_boolean :
    Runs engine (.i32Eqz :: rest) ⟨memory, locals, boolean p :: stack⟩ post ↔
      Runs engine rest ⟨memory, locals, boolean (¬ p) :: stack⟩ post := by
  have same : (if p then (1 : Int32) else 0) = 0 ↔ ¬ p := by
    split
    · next holds => simp [holds]
    · next fails => simp [fails]
  rw [runs_plain rfl, ← boolean_congr same]
  rfl

@[simp]
theorem runs_i32And_boolean :
    Runs engine (.i32And :: rest) ⟨memory, locals, boolean q :: boolean p :: stack⟩ post ↔
      Runs engine rest ⟨memory, locals, boolean (p ∧ q) :: stack⟩ post := by
  have same : boolean (p ∧ q) =
      .i32 ((if p then (1 : Int32) else 0) &&& (if q then 1 else 0)) := by
    by_cases left : p <;> by_cases right : q <;> simp [boolean, left, right]
  rw [runs_plain rfl, same]
  rfl

@[simp]
theorem runs_i32Or_boolean :
    Runs engine (.i32Or :: rest) ⟨memory, locals, boolean q :: boolean p :: stack⟩ post ↔
      Runs engine rest ⟨memory, locals, boolean (p ∨ q) :: stack⟩ post := by
  have same : boolean (p ∨ q) =
      .i32 ((if p then (1 : Int32) else 0) ||| (if q then 1 else 0)) := by
    by_cases left : p <;> by_cases right : q <;> simp [boolean, left, right]
  rw [runs_plain rfl, same]
  rfl

/-- A conditional runs the arm that its truth value picks. -/
@[simp]
theorem runs_if {result : Option ValType} {then_ otherwise : List Ins} :
    Runs engine (.if_ result then_ otherwise :: rest)
        ⟨memory, locals, boolean p :: stack⟩ post ↔
      Runs engine (if p then then_ else otherwise) ⟨memory, locals, []⟩
        fun outcome => (outcome.leave result stack).Then engine rest post := by
  have same : (if (if p then (1 : Int32) else 0) ≠ 0 then then_ else otherwise) =
      if p then then_ else otherwise := by
    by_cases holds : p <;> simp [holds]
  rw [boolean, runs_if_i32, same]

@[simp]
theorem runs_brIf {depth : UInt32} :
    Runs engine (.brIf depth :: rest) ⟨memory, locals, boolean p :: stack⟩ post ↔
      if p then post (.branch depth.toNat ⟨memory, locals, stack⟩)
      else Runs engine rest ⟨memory, locals, stack⟩ post := by
  by_cases holds : p
  · rw [if_pos holds, boolean, if_pos holds]
    exact runs_of_end fun _ => rfl
  · rw [if_neg holds, boolean, if_neg holds]
    exact runs_of_round fun _ => rfl

end Truth

/-! ## Numbers in an `i64` -/

section Wide

variable {a b : Int}

@[simp]
theorem runs_i64Const_literal {number : Nat} :
    Runs engine (.i64Const (no_index (OfNat.ofNat number)) :: rest)
        ⟨memory, locals, stack⟩ post ↔
      Runs engine rest ⟨memory, locals, word64 (no_index (OfNat.ofNat number)) :: stack⟩
        post := by
  have same : word64 (OfNat.ofNat number) = .i64 (OfNat.ofNat number) :=
    congrArg Value.i64 Int64.ofInt_eq_ofNat
  rw [runs_plain rfl, same]
  rfl

@[simp]
theorem runs_i64Const_negative {number : Nat} :
    Runs engine (.i64Const (-(no_index (OfNat.ofNat number))) :: rest)
        ⟨memory, locals, stack⟩ post ↔
      Runs engine rest ⟨memory, locals, word64 (-(no_index (OfNat.ofNat number))) :: stack⟩
        post := by
  have same : word64 (-(OfNat.ofNat number)) = .i64 (-(OfNat.ofNat number)) :=
    congrArg Value.i64 Int64.neg_ofNat.symm
  rw [runs_plain rfl, same]
  rfl

@[simp]
theorem runs_i64Add :
    Runs engine (.i64Add :: rest) ⟨memory, locals, word64 b :: word64 a :: stack⟩ post ↔
      Runs engine rest ⟨memory, locals, word64 (a + b) :: stack⟩ post := by
  have sum : word64 (a + b) = .i64 (Int64.ofInt a + Int64.ofInt b) :=
    congrArg Value.i64 (Int64.ofInt_add a b)
  rw [runs_plain rfl, sum]
  rfl

@[simp]
theorem runs_i64Sub :
    Runs engine (.i64Sub :: rest) ⟨memory, locals, word64 b :: word64 a :: stack⟩ post ↔
      Runs engine rest ⟨memory, locals, word64 (a - b) :: stack⟩ post := by
  have difference : word64 (a - b) = .i64 (Int64.ofInt a - Int64.ofInt b) :=
    congrArg Value.i64 (Int64.ofInt_sub a b)
  rw [runs_plain rfl, difference]
  rfl

@[simp]
theorem runs_i64Mul :
    Runs engine (.i64Mul :: rest) ⟨memory, locals, word64 b :: word64 a :: stack⟩ post ↔
      Runs engine rest ⟨memory, locals, word64 (a * b) :: stack⟩ post := by
  have product : word64 (a * b) = .i64 (Int64.ofInt a * Int64.ofInt b) :=
    congrArg Value.i64 (Int64.ofInt_mul a b)
  rw [runs_plain rfl, product]
  rfl

theorem le_maxValue {number : Int} (fits : Fits64 number) :
    number ≤ Int64.maxValue.toInt := by
  have most : Int64.maxValue.toInt = 9223372036854775807 := rfl
  have below := fits.2
  omega

theorem minValue_le {number : Int} (fits : Fits64 number) :
    Int64.minValue.toInt ≤ number := by
  have least : Int64.minValue.toInt = -9223372036854775808 := rfl
  have above := fits.1
  omega

theorem ofInt_inj64 (fits : Fits64 a) (fits' : Fits64 b) :
    Int64.ofInt a = Int64.ofInt b ↔ a = b := by
  constructor
  · intro same
    rw [← toInt_ofInt64 fits, same, toInt_ofInt64 fits']
  · rintro rfl
    rfl

/-- The remainder by a number other than zero, with the sign of the dividend. -/
@[simp]
theorem runs_i64RemS (fits : Fits64 a) (fits' : Fits64 b) (nonzero : b ≠ 0) :
    Runs engine (.i64RemS :: rest) ⟨memory, locals, word64 b :: word64 a :: stack⟩ post ↔
      Runs engine rest ⟨memory, locals, word64 (a.tmod b) :: stack⟩ post := by
  have remainder : word64 (a.tmod b) = .i64 (Int64.ofInt a % Int64.ofInt b) :=
    congrArg Value.i64 (Int64.ofInt_tmod (minValue_le fits) (le_maxValue fits)
      (minValue_le fits') (le_maxValue fits'))
  have divides : Int64.ofInt b ≠ 0 := by
    intro same
    exact nonzero ((ofInt_inj64 fits' (by constructor <;> decide)).1 same)
  have stepped : step engine .i64RemS ⟨memory, locals, word64 b :: word64 a :: stack⟩ =
      (if Int64.ofInt b = 0 then .error .divideByZero
        else .ok (.i64 (Int64.ofInt a % Int64.ofInt b)) : Except Trap Value).map
        fun value => ⟨memory, locals, value :: stack⟩ := rfl
  rw [runs_plain rfl, stepped, if_neg divides, remainder]
  rfl

/-- The quotient by a number other than zero and minus one, rounded towards zero. -/
@[simp]
theorem runs_i64DivS (fits : Fits64 a) (fits' : Fits64 b) (nonzero : b ≠ 0)
    (other : b ≠ -1) : Runs engine (.i64DivS :: rest) ⟨memory, locals, word64 b :: word64 a :: stack⟩ post ↔
      Runs engine rest ⟨memory, locals, word64 (a.tdiv b) :: stack⟩ post := by
  have quotient : word64 (a.tdiv b) = .i64 (Int64.ofInt a / Int64.ofInt b) :=
    congrArg Value.i64 (Int64.ofInt_tdiv (minValue_le fits) (le_maxValue fits)
      (minValue_le fits') (le_maxValue fits'))
  have divides : Int64.ofInt b ≠ 0 := by
    intro same
    exact nonzero ((ofInt_inj64 fits' (by constructor <;> decide)).1 same)
  have stepped : step engine .i64DivS ⟨memory, locals, word64 b :: word64 a :: stack⟩ =
      (if Int64.ofInt b = 0 then .error .divideByZero
        else if Int64.ofInt a = Int64.minValue ∧ Int64.ofInt b = -1 then .error .overflow
        else .ok (.i64 (Int64.ofInt a / Int64.ofInt b)) : Except Trap Value).map
        fun value => ⟨memory, locals, value :: stack⟩ := rfl
  have defined : ¬(Int64.ofInt a = Int64.minValue ∧ Int64.ofInt b = -1) := by
    rintro ⟨-, minus⟩
    exact other ((ofInt_inj64 fits' (by constructor <;> decide)).1 minus)
  rw [runs_plain rfl, stepped, if_neg divides, if_neg defined, quotient]
  rfl

theorem ofInt_lt64 (fits : Fits64 a) (fits' : Fits64 b) :
    Int64.ofInt a < Int64.ofInt b ↔ a < b :=
  Int64.ofInt_lt_iff_lt (minValue_le fits) (le_maxValue fits) (minValue_le fits')
    (le_maxValue fits')

theorem ofInt_le64 (fits : Fits64 a) (fits' : Fits64 b) :
    Int64.ofInt a ≤ Int64.ofInt b ↔ a ≤ b :=
  Int64.ofInt_le_iff_le (minValue_le fits) (le_maxValue fits) (minValue_le fits')
    (le_maxValue fits')

@[simp]
theorem runs_i64LtS (fits : Fits64 a) (fits' : Fits64 b) :
    Runs engine (.i64LtS :: rest) ⟨memory, locals, word64 b :: word64 a :: stack⟩ post ↔
      Runs engine rest ⟨memory, locals, boolean (a < b) :: stack⟩ post := by
  rw [runs_plain rfl, ← boolean_congr (ofInt_lt64 fits fits')]
  rfl

@[simp]
theorem runs_i64GtS (fits : Fits64 a) (fits' : Fits64 b) :
    Runs engine (.i64GtS :: rest) ⟨memory, locals, word64 b :: word64 a :: stack⟩ post ↔
      Runs engine rest ⟨memory, locals, boolean (b < a) :: stack⟩ post := by
  rw [runs_plain rfl, ← boolean_congr (ofInt_lt64 fits' fits)]
  rfl

@[simp]
theorem runs_i64GeS (fits : Fits64 a) (fits' : Fits64 b) :
    Runs engine (.i64GeS :: rest) ⟨memory, locals, word64 b :: word64 a :: stack⟩ post ↔
      Runs engine rest ⟨memory, locals, boolean (b ≤ a) :: stack⟩ post := by
  rw [runs_plain rfl, ← boolean_congr (ofInt_le64 fits' fits)]
  rfl

@[simp]
theorem runs_i64Eq (fits : Fits64 a) (fits' : Fits64 b) :
    Runs engine (.i64Eq :: rest) ⟨memory, locals, word64 b :: word64 a :: stack⟩ post ↔
      Runs engine rest ⟨memory, locals, boolean (a = b) :: stack⟩ post := by
  rw [runs_plain rfl, ← boolean_congr (ofInt_inj64 fits fits')]
  rfl

@[simp]
theorem runs_i64Eqz (fits : Fits64 a) :
    Runs engine (.i64Eqz :: rest) ⟨memory, locals, word64 a :: stack⟩ post ↔
      Runs engine rest ⟨memory, locals, boolean (a = 0) :: stack⟩ post := by
  rw [runs_plain rfl, ← boolean_congr (ofInt_inj64 fits (by constructor <;> decide))]
  rfl

/-- Narrowing a natural number keeps its lowest bits. -/
@[simp]
theorem runs_i32WrapI64 {number : Nat} :
    Runs engine (.i32WrapI64 :: rest) ⟨memory, locals, word64 number :: stack⟩ post ↔
      Runs engine rest ⟨memory, locals, word32 number :: stack⟩ post := by
  have narrowed : word32 number = .i32 (Int64.ofInt number).toInt32 := by
    rw [Int64.toInt32_ofInt, Int32.ofInt_eq_ofNat]
    rfl
  rw [runs_plain rfl, narrowed]
  rfl

end Wide

end Deed.Wasm
