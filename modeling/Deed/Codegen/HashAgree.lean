import Deed.Codegen.HashingSound

/-!
# Hashing in the two engines

The interpreter's value and the datum that compiled code has for it, and where the two
engines fold them into the same number: everywhere but at `()` itself and at a `Result`,
which compiled code holds as a choice of two named variants and the interpreter as a
value with a flag.
-/

namespace Deed.Codegen.Hashing

open Deed.Wasm Deed.Mir Deed.Runtime Deed.Library
open Deed.Eval (Hash absorb absorbElements absorbFields hashOf)

/-- The layout of `Result<ok, err>`. -/
def resultLayout (name : String) (ok err : Ty) : Layout :=
  ⟨name, [⟨"ok", [⟨"value", ok⟩]⟩, ⟨"err", [⟨"value", err⟩]⟩], true⟩

/-- The interpreter's value of a record, of a variant or of a `Result` with some fields. -/
inductive Assembles (layout : Layout) (held : Variant) (values : List Eval.Value) :
    Eval.Value → Prop where
  | record (plain : layout.choice = false) :
      Assembles layout held values
        (.record (sorted ((held.fields.map Field.name).zip values)))
  | variant (origin : String) (choice : layout.choice = true) :
      Assembles layout held values
        (.variant origin held.name (sorted ((held.fields.map Field.name).zip values)))
  | result (ok : Bool) (value : Eval.Value) {name : String} {good bad : Ty}
      (is : layout = resultLayout name good bad)
      (named : held.name = if ok then "ok" else "err") (only : values = [value]) :
      Assembles layout held values (.result ok value)

section Stands

variable (program : Program)

mutual

/-- The interpreter has a value where compiled code has a datum of a type.  Capabilities
and functions are not hashed. -/
def Stands : Datum → Ty → Eval.Value → Prop
  | .unit, ty, value => ty = .unit ∧ value = .unit
  | .bool yes, ty, value => ty = .bool ∧ value = .bool yes
  | .int number, ty, value => ty = .int ∧ value = .int (.ofInt number)
  | .text text, ty, value => ty = .str ∧ value = .str text
  | .list elements, ty, value =>
      ∃ element values, ty = .list element ∧ value = .list values ∧
        StandsRow elements (List.replicate elements.length element) values
  | .made variant fields, ty, value =>
      ∃ id held values, ty = .aggregate id ∧
        (program.layout id).variants[variant]? = some held ∧
        StandsRow fields (held.fields.map Field.ty) values ∧
        Assembles (program.layout id) held values value
  | .capability _, _, _ => False
  | .closure _, _, _ => False

def StandsRow : List Datum → List Ty → List Eval.Value → Prop
  | [], [], [] => True
  | datum :: data, ty :: types, value :: values =>
      Stands datum ty value ∧ StandsRow data types values
  | _, _, _ => False

end

end Stands

attribute [grind =] Stands StandsRow

mutual

/-- Whether there is no `Result` in a value. -/
def plain : Eval.Value → Bool
  | .result _ _ => false
  | .list elements => plainElements elements
  | .record fields => plainFields fields
  | .variant _ _ fields => plainFields fields
  | _ => true

def plainElements : List Eval.Value → Bool
  | [] => true
  | value :: rest => plain value && plainElements rest

def plainFields : List (String × Eval.Value) → Bool
  | [] => true
  | (_, value) :: rest => plain value && plainFields rest

end

theorem plainElements_iff {values : List Eval.Value} :
    plainElements values = true ↔ ∀ value ∈ values, plain value = true := by
  induction values with
  | nil => simp [plainElements]
  | cons first values ih => simp [plainElements, ih]

theorem plainFields_iff {fields : List (String × Eval.Value)} :
    plainFields fields = true ↔ ∀ entry ∈ fields, plain entry.2 = true := by
  induction fields with
  | nil => simp [plainFields]
  | cons first fields ih => simp [plainFields, ih]

/-! ## Equal values -/

mutual

/-- Values that are `==` are absorbed alike. -/
theorem absorb_same : ∀ {value other : Eval.Value} (hash : Hash),
    value.same other = true → absorb hash value = absorb hash other
  | .unit, .unit, _, _ => rfl
  | .int left, .int right, hash, same => by
      rw [Eval.Value.same, beq_iff_eq] at same
      rw [same]
  | .str left, .str right, hash, same => by
      rw [Eval.Value.same, beq_iff_eq] at same
      rw [same]
  | .bool left, .bool right, hash, same => by
      rw [Eval.Value.same, beq_iff_eq] at same
      rw [same]
  | .record left, .record right, hash, same => by
      rw [absorb, absorb, sameFields_length same]
      exact absorbFields_same _ same
  | .variant origin name left, .variant other called right, hash, same => by
      rw [Eval.Value.same, Bool.and_eq_true, Bool.and_eq_true, beq_iff_eq, beq_iff_eq] at same
      rw [absorb, absorb, same.1.2, sameFields_length same.2]
      exact absorbFields_same _ same.2
  | .list left, .list right, hash, same => by
      rw [absorb, absorb, sameElements_length same]
      exact absorbElements_same _ same
  | .result ok left, .result good right, hash, same => by
      rw [Eval.Value.same, Bool.and_eq_true, beq_iff_eq] at same
      rw [absorb, absorb, same.1]
      exact absorb_same _ same.2
  | .capability left, .capability right, hash, same => rfl
  | .closure left _ _, .closure right _ _, hash, same => rfl
  | .function home left, .function other right, hash, same => rfl

theorem absorbFields_same : ∀ {fields others : List (String × Eval.Value)} (hash : Hash),
    Eval.Value.sameFields fields others = true →
    absorbFields hash fields = absorbFields hash others
  | [], [], _, _ => rfl
  | (name, left) :: lefts, (called, right) :: rights, hash, same => by
      rw [Eval.Value.sameFields, Bool.and_eq_true, Bool.and_eq_true, beq_iff_eq] at same
      rw [absorbFields, absorbFields, same.1.1, absorb_same _ same.1.2]
      congr 1
      funext later
      exact absorbFields_same later same.2

theorem absorbElements_same : ∀ {elements others : List Eval.Value} (hash : Hash),
    Eval.Value.sameElements elements others = true →
    absorbElements hash elements = absorbElements hash others
  | [], [], _, _ => rfl
  | left :: lefts, right :: rights, hash, same => by
      rw [Eval.Value.sameElements, Bool.and_eq_true] at same
      rw [absorbElements, absorbElements, absorb_same _ same.1]
      congr 1
      funext later
      exact absorbElements_same later same.2

theorem sameFields_length : ∀ {fields others : List (String × Eval.Value)},
    Eval.Value.sameFields fields others = true → fields.length = others.length
  | [], [], _ => rfl
  | (name, left) :: lefts, (called, right) :: rights, same => by
      rw [Eval.Value.sameFields, Bool.and_eq_true] at same
      rw [List.length_cons, List.length_cons, sameFields_length same.2]

theorem sameElements_length : ∀ {elements others : List Eval.Value},
    Eval.Value.sameElements elements others = true → elements.length = others.length
  | [], [], _ => rfl
  | left :: lefts, right :: rights, same => by
      rw [Eval.Value.sameElements, Bool.and_eq_true] at same
      rw [List.length_cons, List.length_cons, sameElements_length same.2]

end

/-! ## Values without a `Result` -/

variable {program : Program}

/-- Two values that are absorbed alike. -/
def Alike (value other : Eval.Value) : Prop :=
  ∀ hash : Hash, absorb hash value = absorb hash other

theorem absorbFields_alike {fields others : List (String × Eval.Value)}
    (each : List.Forall₂ (Paired Alike) fields others) (hash : Hash) :
    absorbFields hash fields = absorbFields hash others := by
  induction each generalizing hash with
  | nil => rfl
  | @cons left right fields others pair rest ih =>
      rcases left with ⟨name, value⟩
      rcases right with ⟨called, other⟩
      cases pair.1
      rw [absorbFields, absorbFields, pair.2 (hash.text name)]
      congr 1
      funext later
      exact ih later

theorem absorbElements_alike {elements others : List Eval.Value}
    (each : List.Forall₂ Alike elements others) (hash : Hash) :
    absorbElements hash elements = absorbElements hash others := by
  induction each generalizing hash with
  | nil => rfl
  | @cons left right elements others pair rest ih =>
      rw [absorbElements, absorbElements, pair hash]
      congr 1
      funext later
      exact ih later

theorem zip_alike {names : List String} {values others : List Eval.Value}
    (each : List.Forall₂ Alike values others) :
    List.Forall₂ (Paired Alike) (names.zip values) (names.zip others) := by
  induction each generalizing names with
  | nil =>
      rw [List.zip_nil_right]
      exact List.Forall₂.nil
  | @cons left right values others pair rest ih =>
      cases names with
      | nil => exact List.Forall₂.nil
      | cons name names => exact List.Forall₂.cons ⟨rfl, pair⟩ ih

/-- What is known of a datum: its value is absorbed as what it is laid out as. -/
def Agrees (program : Program) (datum : Datum) : Prop :=
  ∀ (ty : Ty) (value : Eval.Value), Stands program datum ty value → plain value = true →
    Alike value (laidOut program datum ty)

theorem row_alike {data : List Datum} {types : List Ty} {values : List Eval.Value}
    (each : ∀ datum ∈ data, Agrees program datum)
    (row : StandsRow program data types values) (plains : ∀ value ∈ values, plain value = true) :
    List.Forall₂ Alike values (laidOutRow program data types) := by
  induction data generalizing types values with
  | nil =>
      rcases types with _ | ⟨ty, types⟩
      · rcases values with _ | ⟨value, values⟩
        · exact List.Forall₂.nil
        · exact absurd row (by simp [StandsRow])
      · exact absurd row (by simp [StandsRow])
  | cons datum data ih =>
      rcases types with _ | ⟨ty, types⟩
      · exact absurd row (by simp [StandsRow])
      rcases values with _ | ⟨value, values⟩
      · exact absurd row (by simp [StandsRow])
      rw [StandsRow] at row
      rw [laidOutRow]
      refine List.Forall₂.cons (each datum List.mem_cons_self ty value row.1
        (plains value List.mem_cons_self)) ?_
      exact ih (fun datum present => each datum (List.mem_cons_of_mem _ present)) row.2
        fun value present => plains value (List.mem_cons_of_mem _ present)

theorem row_length {data : List Datum} {types : List Ty} {values : List Eval.Value}
    (row : StandsRow program data types values) : types.length = values.length := by
  induction data generalizing types values with
  | nil =>
      rcases types with _ | ⟨ty, types⟩
      · rcases values with _ | ⟨value, values⟩
        · rfl
        · exact absurd row (by simp [StandsRow])
      · exact absurd row (by simp [StandsRow])
  | cons datum data ih =>
      rcases types with _ | ⟨ty, types⟩
      · exact absurd row (by simp [StandsRow])
      rcases values with _ | ⟨value, values⟩
      · exact absurd row (by simp [StandsRow])
      rw [StandsRow] at row
      rw [List.length_cons, List.length_cons, ih row.2]

/-- The fields of a value are plain when the values that it was made of are, and only
then. -/
theorem plain_sorted {names : List String} {values : List Eval.Value}
    (lengths : names.length = values.length)
    (plains : plainFields (sorted (names.zip values)) = true) :
    ∀ value ∈ values, plain value = true := by
  intro value present
  have second : (names.zip values).map Prod.snd = values :=
    List.map_snd_zip (Nat.le_of_eq lengths.symm)
  rw [← second] at present
  rcases List.mem_map.1 present with ⟨entry, zipped, rfl⟩
  exact plainFields_iff.1 plains entry ((sorted_perm _).mem_iff.2 zipped)

/-- By induction on the datum: a value without a `Result` is absorbed as what its datum is
laid out as. -/
theorem agrees (datum : Datum) : Agrees program datum := by
  induction datum using Datum.induct with
  | step datum each =>
      intro ty value stands plains hash
      cases datum with
      | unit =>
          rw [Stands] at stands
          rw [stands.1, stands.2, laidOut]
      | bool yes =>
          rw [Stands] at stands
          rw [stands.1, stands.2, laidOut]
      | int number =>
          rw [Stands] at stands
          rw [stands.1, stands.2, laidOut]
      | text text =>
          rw [Stands] at stands
          rw [stands.1, stands.2, laidOut]
      | capability handle =>
          rw [Stands] at stands
          exact stands.elim
      | closure word =>
          rw [Stands] at stands
          exact stands.elim
      | list elements =>
          rw [Stands] at stands
          rcases stands with ⟨element, values, rfl, rfl, row⟩
          rw [plain] at plains
          have alike := row_alike (fun datum present => each datum (Datum.sizeOf_element present))
            row (plainElements_iff.1 plains)
          have lengths := alike.length_eq
          rw [laidOut, elementOf, absorb, absorb, lengths]
          exact absorbElements_alike alike _
      | made variant fields =>
          rw [Stands] at stands
          rcases stands with ⟨id, held, values, rfl, found, row, assembles⟩
          have lengths : (held.fields.map Field.name).length = values.length := by
            rw [← row_length row, List.length_map, List.length_map]
          have named : (program.layout id).variants.getD variant ⟨"", []⟩ = held := by
            rw [List.getD_eq_getElem?_getD, found]
            rfl
          have alike : (∀ value ∈ values, plain value = true) →
              List.Forall₂ (Paired Alike)
                (sorted ((held.fields.map Field.name).zip values))
                (sorted ((held.fields.map Field.name).zip
                  (laidOutRow program fields (held.fields.map Field.ty)))) := fun plains =>
            sorted_paired (zip_alike (row_alike
              (fun datum present => each datum (Datum.sizeOf_field present)) row plains))
          rw [laidOut, layoutOf, named, assembled, named]
          cases assembles with
          | record bare =>
              rw [plain] at plains
              have pairs := alike (plain_sorted lengths plains)
              rw [bare, if_neg Bool.false_ne_true, absorb, absorb, pairs.length_eq]
              exact absorbFields_alike pairs _
          | variant origin choice =>
              rw [plain] at plains
              have pairs := alike (plain_sorted lengths plains)
              rw [if_pos choice, absorb, absorb, pairs.length_eq]
              exact absorbFields_alike pairs _
          | result ok inner is called only => exact absurd plains Bool.false_ne_true

/-! ## The numbers -/

/-- What an operand of a type leaves on the stack. -/
def produced : Ty → Int → List Value
  | .unit, _ => []
  | .bool, word => [.i32 (if word = 0 then 0 else 1)]
  | _, word => [word64 word]

/-- Code for an operand that leaves a word of a type, over some memory and locals. -/
def Produces (engine : Engine) (before after : Before) (value : List Ins) (ty : Ty)
    (word : Int) : Prop :=
  ∀ (rest : List Ins) (stack : List Value) (post : Outcome → Prop),
    Runs engine rest ⟨after.memory, after.locals, produced ty word ++ stack⟩ post →
    Runs engine (value ++ rest) ⟨before.memory, before.locals, stack⟩ post

/-- Hashing an expression leaves a number, wherever what it is hashed from holds a
datum. -/
def Computes (engine : Engine) (program : Program) (at_ : Where) (datum : Datum) (ty : Ty)
    (number : Int64) : Prop :=
  ∀ (before after : Before) (value : List Ins) (word : Int),
    after.memory.pages ≤ engine.ceiling → Holds program after.memory datum ty word →
    Produces engine before after value ty word →
    ∃ code, hashed value ty at_ = some code ∧
      ∀ (rest : List Ins) (stack : List Value) (post : Outcome → Prop),
        Runs engine rest ⟨after.memory, after.locals, .i64 number :: stack⟩ post →
        Runs engine (code ++ rest) ⟨before.memory, before.locals, stack⟩ post

/-- The number that compiled code answers for a datum of a type. -/
def compiledHash (program : Program) (datum : Datum) (ty : Ty) : Option Int64 :=
  if ty = .unit then some Hash.BASIS.toInt64 else hashOf (laidOut program datum ty)

/-- A value that can be folded, from any hash. -/
def Foldable (value : Eval.Value) : Prop := ∀ hash : Hash, ∃ later, absorb hash value = some later

theorem absorbFields_foldable {fields : List (String × Eval.Value)}
    (each : ∀ entry ∈ fields, Foldable entry.2) (hash : Hash) :
    ∃ later, absorbFields hash fields = some later := by
  induction fields generalizing hash with
  | nil => exact ⟨hash, rfl⟩
  | cons entry fields ih =>
      rcases entry with ⟨name, value⟩
      rcases each _ List.mem_cons_self (hash.text name) with ⟨middle, first⟩
      rcases ih (fun entry present => each entry (List.mem_cons_of_mem _ present)) middle with
        ⟨later, rest⟩
      refine ⟨later, ?_⟩
      rw [absorbFields, first]
      exact rest

theorem absorbElements_foldable {elements : List Eval.Value}
    (each : ∀ value ∈ elements, Foldable value) (hash : Hash) :
    ∃ later, absorbElements hash elements = some later := by
  induction elements generalizing hash with
  | nil => exact ⟨hash, rfl⟩
  | cons value elements ih =>
      rcases each value List.mem_cons_self hash with ⟨middle, first⟩
      rcases ih (fun value present => each value (List.mem_cons_of_mem _ present)) middle with
        ⟨later, rest⟩
      refine ⟨later, ?_⟩
      rw [absorbElements, first]
      exact rest

theorem mem_laidOutRow {data : List Datum} {types : List Ty} {value : Eval.Value}
    (present : value ∈ laidOutRow program data types) :
    ∃ datum ∈ data, ∃ ty, value = laidOut program datum ty := by
  induction data generalizing types with
  | nil =>
      rw [laidOutRow] at present
      · exact absurd present List.not_mem_nil
      · rintro _ _ _ _ impossible
        exact absurd impossible.symm (List.cons_ne_nil _ _)
  | cons datum data ih =>
      cases types with
      | nil =>
          rw [laidOutRow] at present
          · exact absurd present List.not_mem_nil
          · rintro _ _ _ _ - impossible
            exact absurd impossible.symm (List.cons_ne_nil _ _)
      | cons ty types =>
          rw [laidOutRow] at present
          rcases List.mem_cons.1 present with rfl | later
          · exact ⟨datum, List.mem_cons_self, ty, rfl⟩
          · rcases ih later with ⟨other, listed, same⟩
            exact ⟨other, List.mem_cons_of_mem _ listed, same⟩

/-- What a datum is laid out as can be folded. -/
theorem laidOut_foldable (datum : Datum) (ty : Ty) : Foldable (laidOut program datum ty) := by
  induction datum using Datum.induct generalizing ty with
  | step datum each =>
      intro hash
      cases datum with
      | list elements =>
          rw [laidOut, absorb]
          apply absorbElements_foldable
          intro value present
          rcases mem_laidOutRow present with ⟨inner, listed, other, rfl⟩
          exact each inner (Datum.sizeOf_element listed) other
      | made variant fields =>
          have parts : ∀ names : List String, ∀ entry ∈ sorted (names.zip
              (laidOutRow program fields
                (((layoutOf program ty).variants.getD variant ⟨"", []⟩).fields.map
                  Field.ty))), Foldable entry.2 := by
            intro names entry present
            have zipped := (sorted_perm _).mem_iff.1 present
            rcases mem_laidOutRow (List.of_mem_zip (a := entry.1) (b := entry.2) zipped).2 with
              ⟨inner, listed, other, same⟩
            rw [same]
            exact each inner (Datum.sizeOf_field listed) other
          rw [laidOut, assembled]
          cases (layoutOf program ty).choice with
          | true =>
              rw [if_pos rfl, absorb]
              exact absorbFields_foldable (parts _) _
          | false =>
              rw [if_neg Bool.false_ne_true, absorb]
              exact absorbFields_foldable (parts _) _
      | unit | bool | int | capability | closure | text => exact ⟨_, rfl⟩

variable {engine : Engine} {shapes : List Ty} {at_ : Where}

/-- The instructions that end the hashing of a word. -/
theorem hashed_word {ty : Ty} {value : List Ins} (plain : walked ty = false)
    (number : ty ≠ .str) (here : ty.isBoxed = false) :
    hashed value ty at_ = some (.i64Const (.ofNat 0xcbf29ce484222325) :: value ++
      (if ty = .bool then [.i64ExtendI32S] else []) ++
      if (valType ty).isSome then [.i64Xor, .i64Const 1099511628211, .i64Mul] else []) := by
  rw [hashed, if_neg number, if_neg (by rw [plain]; exact Bool.false_ne_true),
    if_neg (by rw [here]; exact Bool.false_ne_true)]

theorem runs_basis {memory : Memory} {locals stack : List Value} {rest : List Ins}
    {post : Outcome → Prop} :
    Runs engine (.i64Const (.ofNat 0xcbf29ce484222325) :: rest) ⟨memory, locals, stack⟩ post ↔
      Runs engine rest ⟨memory, locals, travels Hash.BASIS :: stack⟩ post :=
  runs_plain rfl

/-- A word of a type that has a representation is widened and folded where it stands. -/
theorem computes_word {ty : Ty} {datum : Datum} (plain : walked ty = false)
    (number : ty ≠ .str) (here : ty.isBoxed = false) (present : ty ≠ .unit) {answer : Int64}
    (answers : compiledHash program datum ty = some answer) :
    Computes engine program at_ datum ty answer := by
  intro before after value word pages holds produces
  refine ⟨_, hashed_word plain number here, ?_⟩
  intro rest stack post goes
  rw [compiledHash, if_neg present, hashOf, absorb_word plain number holds] at answers
  have same : travels (Hash.word Hash.BASIS (.ofInt word)) = .i64 answer :=
    congrArg Value.i64 (Option.some.inj answers)
  have step : Runs engine ([.i64Xor, .i64Const 1099511628211, .i64Mul] ++ rest)
      ⟨after.memory, after.locals, word64 word :: travels Hash.BASIS :: stack⟩ post := by
    rw [word64, runs_step, same]
    exact goes
  have sized : (valType ty).isSome = true := by
    cases ty with
    | unit => exact absurd rfl present
    | _ => rfl
  rw [if_pos sized, List.append_assoc, List.cons_append, List.cons_append, runs_basis,
    List.append_assoc]
  apply produces
  by_cases truth : ty = .bool
  · rw [if_pos truth, truth, produced]
    rw [truth] at holds
    have widened : word64 word = .i64 (Int32.toInt64 (if word = 0 then 0 else 1)) := by
      cases datum <;> simp [Holds] at holds
      next yes =>
        rw [holds]
        cases yes <;> rfl
    rw [List.cons_append, runs_plain rfl]
    rw [widened] at step
    exact step
  · rw [if_neg truth]
    have whole : produced ty word = [word64 word] := by
      cases ty with
      | unit => exact absurd rfl present
      | bool => exact absurd rfl truth
      | _ => rfl
    rw [whole]
    exact step

/-- A shape with a fold of its own, or a string, is folded by a call. -/
theorem computes_call {ty : Ty} {datum : Datum} {call : Ins}
    (emitted : Emitted engine program shapes at_)
    (closed : ∀ ty ∈ shapes, ∀ held ∈ Equality.heldBy program ty,
      Equality.walked held = true → held ∈ shapes)
    (available : Equality.Available program shapes ty)
    (found : folds ty at_ = some (some call))
    (code : ∀ value, hashed value ty at_ =
      some (.i64Const (.ofNat 0xcbf29ce484222325) :: value ++ [call]))
    (whole : ∀ word, produced ty word = [word64 word]) {answer : Int64}
    (answers : hashOf (laidOut program datum ty) = some answer) :
    Computes engine program at_ datum ty answer := by
  intro before after value word pages holds produces
  refine ⟨_, code value, ?_⟩
  intro rest stack post goes
  rcases folded emitted pages closed datum ty word Hash.BASIS available holds with
    ⟨later, absorbed, takes, -⟩
  rw [hashOf, absorbed] at answers
  have same : travels later = .i64 answer := congrArg Value.i64 (Option.some.inj answers)
  rw [List.append_assoc, List.cons_append, runs_basis]
  apply produces
  rw [whole]
  apply takes call found
  rw [same]
  exact goes

/-- `()` pushed nothing, and the basis is left as it is. -/
theorem computes_unit {datum : Datum} :
    Computes engine program at_ datum .unit Hash.BASIS.toInt64 := by
  intro before after value word pages holds produces
  refine ⟨_, hashed_word rfl Ty.noConfusion rfl, ?_⟩
  intro rest stack post goes
  rw [List.append_assoc, List.cons_append, List.cons_append, runs_basis, List.append_assoc]
  apply produces
  exact goes

/-- The number that compiled code computes for a datum. -/
theorem computes (emitted : Emitted engine program shapes at_)
    (closed : ∀ ty ∈ shapes, ∀ held ∈ Equality.heldBy program ty,
      Equality.walked held = true → held ∈ shapes)
    {ty : Ty} (available : Equality.Available program shapes ty) (value : ty ≠ .closure)
    {datum : Datum} {answer : Int64} (answers : compiledHash program datum ty = some answer) :
    Computes engine program at_ datum ty answer := by
  cases ty with
  | unit =>
      rw [compiledHash, if_pos rfl] at answers
      rw [← Option.some.inj answers]
      exact computes_unit
  | closure => exact absurd rfl value
  | bool => exact computes_word rfl Ty.noConfusion rfl Ty.noConfusion answers
  | int => exact computes_word rfl Ty.noConfusion rfl Ty.noConfusion answers
  | capability => exact computes_word rfl Ty.noConfusion rfl Ty.noConfusion answers
  | str =>
      rw [compiledHash, if_neg Ty.noConfusion] at answers
      refine computes_call emitted closed available rfl ?_ (fun _ => rfl) answers
      intro value
      rw [hashed, if_pos rfl, if_neg Ty.noConfusion, List.append_nil]
  | aggregate id =>
      rw [compiledHash, if_neg Ty.noConfusion] at answers
      rcases walked_call emitted (available.1 rfl) with ⟨index, typeIndex, called, -⟩
      have walks : walked (.aggregate id) = true := rfl
      have found : folds (.aggregate id) at_ = some (some (.call index)) := by
        rw [folds, if_neg Ty.noConfusion, if_pos walks, called]
        rfl
      refine computes_call emitted closed available found ?_ (fun _ => rfl) answers
      intro value
      rw [hashed, if_neg Ty.noConfusion, if_pos walks, called, if_neg Ty.noConfusion,
        List.append_nil]
      rfl
  | list element =>
      rw [compiledHash, if_neg Ty.noConfusion] at answers
      rcases walked_call emitted (available.1 rfl) with ⟨index, typeIndex, called, -⟩
      have walks : walked (.list element) = true := rfl
      have found : folds (.list element) at_ = some (some (.call index)) := by
        rw [folds, if_neg Ty.noConfusion, if_pos walks, called]
        rfl
      refine computes_call emitted closed available found ?_ (fun _ => rfl) answers
      intro value
      rw [hashed, if_neg Ty.noConfusion, if_pos walks, called, if_neg Ty.noConfusion,
        List.append_nil]
      rfl

theorem compiledHash_some (program : Program) (datum : Datum) (ty : Ty) :
    ∃ number, compiledHash program datum ty = some number := by
  rw [compiledHash]
  split
  · exact ⟨_, rfl⟩
  · rcases @laidOut_foldable program datum ty Hash.BASIS with ⟨later, absorbed⟩
    exact ⟨later.done, by rw [hashOf, absorbed]; rfl⟩

/-- Hashing in the two engines.  Values that are `==` have one hash in the interpreter,
and in compiled code the number depends on nothing but the datum, which is what compiled
`==` compares.  For a value without a `Result` the two numbers are one exactly where the
type is not `Unit`. -/
theorem hashes_agree (program : Program) (start : List Ty) :
    (∀ value other : Eval.Value, value.same other = true → hashOf value = hashOf other) ∧
    ∃ shapes, Equality.closeOver program start = some shapes ∧ (∀ ty ∈ start, ty ∈ shapes) ∧
      ∀ (engine : Engine) (at_ : Where), Emitted engine program shapes at_ →
        ∀ ty, Equality.Available program shapes ty → ty ≠ .closure → ∀ datum : Datum,
          ∃ number, Computes engine program at_ datum ty number ∧
            ∀ value, Stands program datum ty value → plain value = true →
              (hashOf value = some number ↔ ty ≠ .unit) := by
  constructor
  · intro value other same
    rw [hashOf, hashOf, absorb_same _ same]
  rcases Equality.closeOver_ends program start with ⟨shapes, closes⟩
  rcases Equality.closeOver_holds closes with ⟨kept, closed⟩
  refine ⟨shapes, closes, kept, ?_⟩
  intro engine at_ emitted ty available function datum
  rcases compiledHash_some program datum ty with ⟨number, answers⟩
  refine ⟨number, computes emitted closed available function answers, ?_⟩
  intro value stands plains
  rw [compiledHash] at answers
  constructor
  · rintro hashes rfl
    rw [if_pos rfl] at answers
    have only : value = .unit := by
      cases datum <;> simp [Stands] at stands
      exact stands
    rw [only, ← answers] at hashes
    exact absurd hashes (by decide)
  · intro present
    rw [if_neg present] at answers
    rw [← answers, hashOf, hashOf, agrees datum ty value stands plains]

/-- A record of a number and a truth value, and a `Result` of numbers. -/
def outcomes : Program where
  layouts := [⟨"Point", [⟨"Point", [⟨"at", .int⟩, ⟨"seen", .bool⟩]⟩], false⟩,
    resultLayout "Result<Int, Int>" .int .int]
  effects := []
  functions := []
  counted := by
    intro layout listed
    rcases List.mem_cons.1 listed with rfl | listed
    · exact Nat.one_lt_two_pow (by decide)
    · rw [List.mem_singleton.1 listed]
      exact Nat.pow_lt_pow_right Nat.one_lt_two (by decide : 1 < 63)

/-- Their folds are the only functions there are. -/
def outcomesWhere : Where := ⟨[(.aggregate 0, 0), (.aggregate 1, 1)], 0⟩

theorem one_page_small : 1 ≤ 16384 := by decide

def outcomesEngine : Engine where
  module := {
    types := [signature]
    imports := []
    funcs := [
      ⟨0, (compile outcomes (.aggregate 0) outcomesWhere).1,
        (compile outcomes (.aggregate 0) outcomesWhere).2⟩,
      ⟨0, (compile outcomes (.aggregate 1) outcomesWhere).1,
        (compile outcomes (.aggregate 1) outcomesWhere).2⟩]
    exports := []
    memoryPages := some 1
    exportedMemory := none
    data := []
    table := []
    names := [] }
  ceiling := 1
  small := one_page_small

theorem outcomes_emitted :
    Emitted outcomesEngine outcomes [.aggregate 0, .aggregate 1] outcomesWhere := by
  refine ⟨rfl, ?_, fun needed => absurd needed Bool.false_ne_true⟩
  intro entry listed
  rcases List.mem_cons.1 listed with rfl | listed
  · exact ⟨0, rfl⟩
  · rw [List.mem_singleton.1 listed]
    exact ⟨0, rfl⟩

theorem outcomes_close :
    Equality.closeOver outcomes [.aggregate 0, .aggregate 1] =
      some [.aggregate 0, .aggregate 1] := rfl

theorem hashes_agree_point :
    ∃ number, Computes outcomesEngine outcomes outcomesWhere
        (.made 0 [.int 0, .bool false]) (.aggregate 0) number ∧
      hashOf (.record [("at", .int 0), ("seen", .bool false)]) = some number := by
  rcases (hashes_agree outcomes [.aggregate 0, .aggregate 1]).2 with ⟨shapes, closes, -, holds⟩
  rw [Option.some.inj (closes.symm.trans outcomes_close)] at holds
  have available : Equality.Available outcomes [.aggregate 0, .aggregate 1] (.aggregate 0) :=
    ⟨fun _ => List.mem_cons_self, fun text => Ty.noConfusion text⟩
  rcases holds outcomesEngine outcomesWhere outcomes_emitted (.aggregate 0) available
    Ty.noConfusion (.made 0 [.int 0, .bool false]) with ⟨number, computes, agrees⟩
  refine ⟨number, computes, (agrees _ ?_ rfl).2 Ty.noConfusion⟩
  rw [Stands]
  refine ⟨0, ⟨"Point", [⟨"at", .int⟩, ⟨"seen", .bool⟩]⟩, [.int 0, .bool false], rfl, rfl, ?_,
    .record rfl⟩
  exact ⟨⟨rfl, rfl⟩, ⟨rfl, rfl⟩, trivial⟩

/-- `hash(())` and `hash(ok(1))` are one number in compiled code and another in the
interpreter. -/
theorem hashes_differ :
    (Stands outcomes .unit .unit .unit ∧
      ∃ number, Computes outcomesEngine outcomes outcomesWhere .unit .unit number ∧
        hashOf .unit ≠ some number) ∧
    Stands outcomes (.made 0 [.int 1]) (.aggregate 1) (.result true (.int 1)) ∧
      ∃ number, Computes outcomesEngine outcomes outcomesWhere (.made 0 [.int 1])
          (.aggregate 1) number ∧
        hashOf (.result true (.int 1)) ≠ some number := by
  refine ⟨⟨⟨rfl, rfl⟩, Hash.BASIS.toInt64, computes_unit, by decide⟩, ?_, ?_⟩
  · rw [Stands]
    refine ⟨1, ⟨"ok", [⟨"value", .int⟩]⟩, [.int 1], rfl, rfl, ⟨⟨rfl, rfl⟩, trivial⟩,
      .result true (.int 1) rfl rfl rfl⟩
  · rcases compiledHash_some outcomes (.made 0 [.int 1]) (.aggregate 1) with ⟨number, answers⟩
    have available : Equality.Available outcomes [.aggregate 0, .aggregate 1] (.aggregate 1) :=
      ⟨fun _ => List.mem_cons_of_mem _ List.mem_cons_self, fun text => Ty.noConfusion text⟩
    refine ⟨number, computes outcomes_emitted (Equality.closeOver_holds outcomes_close).2
      available Ty.noConfusion answers, ?_⟩
    rw [← answers]
    decide

end Deed.Codegen.Hashing
