import Deed.Codegen.EqualitySound
import Deed.Codegen.Hashing
import Deed.Eval.Value

/-!
# Compiled hashing

What the emitted folds compute.  The value that a datum is laid out as has a `Result` as
the choice that the middle representation makes of it; the folds absorb what the
interpreter absorbs of that value, in the same order.
-/

namespace Deed.Codegen.Hashing

open Deed.Wasm Deed.Mir Deed.Runtime Deed.Library
open Deed.Eval (Hash absorb absorbElements absorbFields)

variable {engine : Engine} {memory : Memory} {locals : List Value} {hash : Hash}
  {address : Nat}

/-! ## One step -/

/-- A running hash, as it travels. -/
def travels (hash : Hash) : Value := .i64 hash.toInt64

theorem runs_step {rest : List Ins} {stack : List Value} {post : Outcome → Prop}
    {word : Int64} :
    Runs engine ([.i64Xor, .i64Const 1099511628211, .i64Mul] ++ rest)
        ⟨memory, locals, .i64 word :: travels hash :: stack⟩ post ↔
      Runs engine rest ⟨memory, locals, travels (hash.word word) :: stack⟩ post := by
  have xor : step engine .i64Xor ⟨memory, locals, .i64 word :: travels hash :: stack⟩ =
      .ok ⟨memory, locals, .i64 (hash.toInt64 ^^^ word) :: stack⟩ := rfl
  have prime : step engine (.i64Const 1099511628211)
      ⟨memory, locals, .i64 (hash.toInt64 ^^^ word) :: stack⟩ =
      .ok ⟨memory, locals, .i64 1099511628211 :: .i64 (hash.toInt64 ^^^ word) :: stack⟩ := rfl
  have times : step engine .i64Mul
      ⟨memory, locals, .i64 1099511628211 :: .i64 (hash.toInt64 ^^^ word) :: stack⟩ =
      .ok ⟨memory, locals, .i64 ((hash.toInt64 ^^^ word) * 1099511628211) :: stack⟩ := rfl
  have same : (hash.toInt64 ^^^ word) * 1099511628211 = (hash.word word).toInt64 := rfl
  rw [List.cons_append, runs_plain rfl, xor, Stepped, List.cons_append, runs_plain rfl, prime,
    Stepped, List.cons_append, runs_plain rfl, times, Stepped, same, List.nil_append]
  rfl

/-- Code that pushes one value and changes nothing else. -/
def Pushes (engine : Engine) (memory : Memory) (locals : List Value) (code : List Ins)
    (value : Value) : Prop :=
  ∀ (rest : List Ins) (stack : List Value) (post : Outcome → Prop),
    Runs engine rest ⟨memory, locals, value :: stack⟩ post →
    Runs engine (code ++ rest) ⟨memory, locals, stack⟩ post

/-- A piece of a fold takes the running hash from one number to another. -/
def Folds (engine : Engine) (memory : Memory) (locals : List Value) (code : List Ins)
    (later : Hash) : Prop :=
  Does engine ⟨memory, locals⟩ code (fun now => now = locals.set 2 (travels later))
    fun _ => False

theorem Folds.append {first second : List Ins} {later last : Hash}
    (folds : Folds engine memory locals first later)
    (next : Folds engine memory (locals.set 2 (travels later)) second last) :
    Folds engine memory locals (first ++ second) last := by
  apply Does.append folds
  rintro now rfl
  refine Does.mono next ?_ fun _ => id
  rintro now rfl
  exact List.set_set ..

theorem folds_nil (held : locals[2]? = some (travels hash)) :
    Folds engine memory locals [] hash := by
  apply Does.nil
  rcases List.getElem?_eq_some_iff.1 held with ⟨inside, found⟩
  rw [← found, List.set_getElem_self]

theorem folds_absorb {what : List Ins} {word : Int64}
    (held : locals[2]? = some (travels hash))
    (pushes : Pushes engine memory locals what (.i64 word)) :
    Folds engine memory locals (Code.absorb what) (hash.word word) := by
  intro rest stack post goes ends
  have inside : (2 : UInt32).toNat < locals.length := (List.getElem?_eq_some_iff.1 held).1
  have found : locals[(2 : UInt32).toNat]? = some (travels hash) := held
  have code : Code.absorb what ++ rest = .localGet 2 ::
      (what ++ ([.i64Xor, .i64Const 1099511628211, .i64Mul] ++ (.localSet 2 :: rest))) := by
    simp [Code.absorb]
  rw [code, runs_localGet, found, Option.elim_some]
  apply pushes
  rw [runs_step, runs_localSet, if_pos inside]
  exact goes _ rfl

theorem pushes_const {word : Int64} :
    Pushes engine memory locals [.i64Const word] (.i64 word) := by
  intro rest stack post runs
  rw [List.singleton_append, runs_plain rfl]
  exact runs

/-! ## Names and text -/

theorem word_byte (hash : Hash) (byte : UInt8) :
    hash.word (.ofNat byte.toNat) = hash.byte byte := by
  have same : (Int64.ofNat byte.toNat).toUInt64 = byte.toUInt64 := by
    rw [Int64.toUInt64_ofNat', UInt64.ofNat_uInt8ToNat]
  rw [Hash.word, same, Hash.byte]

theorem folds_name (name : String) (held : locals[2]? = some (travels hash)) :
    Folds engine memory locals (absorbName name) (hash.text name) := by
  rw [absorbName, Hash.text]
  show Folds engine memory locals _ ((bytesOf name).foldl Hash.byte hash)
  induction bytesOf name generalizing locals hash with
  | nil => exact folds_nil held
  | cons byte bytes ih =>
      have first : Folds engine memory locals (Code.absorb [.i64Const (.ofNat byte.toNat)])
          (hash.byte byte) := by
        rw [← word_byte]
        exact folds_absorb held pushes_const
      have inside : 2 < locals.length := (List.getElem?_eq_some_iff.1 held).1
      exact first.append (ih (List.getElem?_set_self inside))

theorem text_take {text : String} {count : Nat} (below : count < (bytesOf text).length) :
    ((bytesOf text).take (count + 1)).foldl Hash.byte hash =
      (((bytesOf text).take count).foldl Hash.byte hash).byte (bytesOf text)[count] := by
  rw [List.take_succ_eq_append_getElem below, List.foldl_append]
  rfl

/-- What the loop over the bytes keeps: the bytes before the counter are absorbed. -/
def Absorbed (memory : Memory) (first : Value) (address : Nat) (text : String) (hash : Hash)
    (count : Nat) (now : Memory) (locals : List Value) : Prop :=
  now = memory ∧
    locals = [first, word64 address,
      travels (((bytesOf text).take count).foldl Hash.byte hash),
      word32 (bytesOf text).length, word32 count]

/-- `str_hash` takes the length of a string in characters and its bytes into the hash. -/
theorem hashedText_answers {at_ : Runtime.Where Helper} {text : String}
    (string : StringAt memory address text) (pages : memory.pages ≤ engine.ceiling) :
    Answers engine at_ .hashedText memory [travels hash, word64 address]
      (fun after value => after = memory ∧
        value = travels ((hash.word (.ofNat text.length)).text text))
      (fun _ => False) := by
  have small := string.small pages
  show Runs engine Code.hashedText.2
    ⟨memory, [travels hash, word64 address, word64 0, word32 0, word32 0], []⟩ _
  have length : Pushes engine memory
      [travels hash, word64 address, travels hash, word32 0, word32 0]
      [.localGet 1, .i32WrapI64, .i64Load 0] (.i64 (.ofNat text.length)) := by
    intro rest stack post runs
    simp only [List.cons_append, List.nil_append, runs_localGet, UInt32.reduceToNat,
      List.getElem?_cons_succ, List.getElem?_cons_zero, Option.elim_some, runs_i32WrapI64]
    rw [runs_i64Load (by omega), UInt32.toNat_zero, Nat.add_zero, string.characters,
      Option.elim_some, word64, Int64.ofInt_eq_ofNat]
    exact runs
  simp only [Code.hashedText, seq_cons, seq_nil, List.append_nil, List.cons_append,
    List.nil_append, runs_localGet, UInt32.reduceToNat, List.getElem?_cons_zero,
    Option.elim_some, runs_localSet, List.length_cons, List.set_cons_succ,
    List.set_cons_zero]
  rw [if_pos (by omega)]
  have opened : Folds engine memory
      [travels hash, word64 address, travels hash, word32 0, word32 0]
      (Code.absorb [.localGet 1, .i32WrapI64, .i64Load 0]) (hash.word (.ofNat text.length)) :=
    folds_absorb rfl length
  apply opened
  · rintro now rfl
    rw [List.set_cons_succ, List.set_cons_succ, List.set_cons_zero,
      runs_byteLength string pages rfl, runs_localSet, if_pos (Nat.lt_of_sub_eq_succ rfl)]
    refine runs_countTo (bytesOf text).length
      (Absorbed memory (travels hash) address text (hash.word (.ofNat text.length)))
      (by omega) (Nat.lt_of_sub_eq_succ rfl) ⟨rfl, rfl⟩ ?_ ?_ ?_
    · rintro count now locals ⟨-, rfl⟩
      exact ⟨rfl, rfl⟩
    · rintro count now locals below ⟨rfl, rfl⟩
      have byte : Pushes engine now
          [travels hash, word64 address,
            travels (((bytesOf text).take count).foldl Hash.byte
              (hash.word (.ofNat text.length))),
            word32 (bytesOf text).length, word32 count]
          (byteAt 1 4 ++ [.i64ExtendI32S]) (.i64 (.ofNat (bytesOf text)[count].toNat)) := by
        intro rest stack post runs
        have low := (bytesOf text)[count].toNat_lt
        rw [List.append_assoc, runs_byteAt string pages rfl rfl below, List.singleton_append,
          runs_i64ExtendI32S (by omega), word64, Int64.ofInt_eq_ofNat]
        exact runs
      refine folds_absorb rfl byte _ _ _ ?_ fun _ => False.elim
      rintro now rfl
      refine (runs_nextTurn rfl).2 ⟨rfl, ?_⟩
      rw [text_take below, word_byte]
      rfl
    · rintro now locals ⟨rfl, rfl⟩
      rw [List.take_length, runs_localGet]
      exact runs_return.2 (answered_returned.2 ⟨rfl, rfl⟩)
  · exact fun _ => False.elim

/-! ## What a datum is laid out as -/

/-- The type of the elements of a list. -/
def elementOf : Ty → Ty
  | .list element => element
  | _ => .unit

section LaidOut

variable (program : Program)

/-- The layout that a type names. -/
def layoutOf : Ty → Layout
  | .aggregate id => program.layout id
  | _ => ⟨"", [], false⟩

/-- The value of a record or of a variant, with its fields in the order of their names. -/
def assembled (layout : Layout) (variant : Nat) (values : List Eval.Value) : Eval.Value :=
  let held := layout.variants.getD variant ⟨"", []⟩
  let fields := sorted ((held.fields.map Field.name).zip values)
  if layout.choice then .variant "" held.name fields else .record fields

mutual

/-- The value that a datum of a type reads as, where a `Result` is a choice. -/
def laidOut : Datum → Ty → Eval.Value
  | .unit, _ => .unit
  | .bool yes, _ => .bool yes
  | .int number, _ => .int (.ofInt number)
  | .capability handle, _ => .int (.ofInt handle)
  | .closure word, _ => .int (.ofInt word)
  | .text text, _ => .str text
  | .list elements, ty =>
      .list (laidOutRow elements (List.replicate elements.length (elementOf ty)))
  | .made variant fields, ty =>
      assembled (layoutOf program ty) variant
        (laidOutRow fields
          (((layoutOf program ty).variants.getD variant ⟨"", []⟩).fields.map Field.ty))

def laidOutRow : List Datum → List Ty → List Eval.Value
  | datum :: data, ty :: types => laidOut datum ty :: laidOutRow data types
  | _, _ => []

end

end LaidOut

/-! ## Calls -/

/-- The module holds the fold of each shape where its callers expect it, and the text
helper where a shape needs it. -/
structure Emitted (engine : Engine) (program : Program) (shapes : List Ty)
    (at_ : Where) : Prop where
  numbered : at_.hashes.map Prod.fst = shapes
  placed : ∀ entry ∈ at_.hashes, ∃ typeIndex, engine.module.function entry.2.toNat =
    .ok (signature, ⟨typeIndex, (compile program entry.1 at_).1,
      (compile program entry.1 at_).2⟩)
  text : Equality.needsText program shapes = true →
    ∃ typeIndex, engine.module.function at_.hashText.toNat =
      .ok (Helper.hashedText.signature,
        ⟨typeIndex, Code.hashedText.1, Code.hashedText.2⟩)

/-- An instruction takes a word into the running hash. -/
def Takes (engine : Engine) (memory : Memory) (call : Ins) (word : Int)
    (hash later : Hash) : Prop :=
  ∀ (rest : List Ins) (locals stack : List Value) (post : Outcome → Prop),
    Runs engine rest ⟨memory, locals, travels later :: stack⟩ post →
    Runs engine (call :: rest) ⟨memory, locals, word64 word :: travels hash :: stack⟩ post

variable {program : Program} {shapes : List Ty} {at_ : Where}

open Equality (Available)

theorem takes_of_answers {index typeIndex : UInt32} {called : FuncType}
    {extra : List ValType} {body : List Ins} {word : Int} {later : Hash}
    (placed : engine.module.function index.toNat = .ok (called, ⟨typeIndex, extra, body⟩))
    (arity : called = signature)
    (answers : Runs engine body
      ⟨memory, [travels hash, word64 word] ++ extra.map Value.zero, []⟩
      (Answered (fun after value => after = memory ∧ value = travels later)
        fun _ => False)) :
    Takes engine memory (.call index) word hash later := by
  intro rest locals stack post goes
  apply runs_call_placed placed (by rw [arity]; rfl) (by rw [arity]; rfl) answers
  · rintro after value ⟨rfl, rfl⟩
    exact goes
  · exact fun _ => False.elim

theorem walked_call {ty : Ty} (emitted : Emitted engine program shapes at_)
    (present : ty ∈ shapes) :
    ∃ index typeIndex, at_.call ty = some (.call index) ∧
      engine.module.function index.toNat =
        .ok (signature, ⟨typeIndex, (compile program ty at_).1, (compile program ty at_).2⟩) := by
  rw [← emitted.numbered] at present
  rcases callOf_mem present with ⟨index, called, listed⟩
  rcases emitted.placed (ty, index) listed with ⟨typeIndex, placed⟩
  exact ⟨index, typeIndex, called, placed⟩

theorem folds_available {ty : Ty} (emitted : Emitted engine program shapes at_)
    (available : Available program shapes ty) : ∃ call, folds ty at_ = some call := by
  rw [folds]
  by_cases text : ty = .str
  · exact ⟨_, if_pos text⟩
  · rw [if_neg text]
    by_cases walks : walked ty = true
    · rcases walked_call emitted (available.1 walks) with ⟨index, typeIndex, called, -⟩
      exact ⟨some (.call index), by rw [if_pos walks, called]; rfl⟩
    · exact ⟨none, if_neg walks⟩

/-- What a piece of code does that takes a loaded word into the hash. -/
theorem folds_call {loaded : List Ins} {call : Ins} {word : Int} {later : Hash}
    (held : locals[2]? = some (travels hash))
    (pushes : Pushes engine memory locals loaded (word64 word))
    (takes : Takes engine memory call word hash later) :
    Folds engine memory locals ([.localGet 2] ++ loaded ++ [call, .localSet 2]) later := by
  intro rest stack post goes ends
  have inside : (2 : UInt32).toNat < locals.length := (List.getElem?_eq_some_iff.1 held).1
  have found : locals[(2 : UInt32).toNat]? = some (travels hash) := held
  rw [List.append_assoc, List.append_assoc, List.singleton_append, runs_localGet, found,
    Option.elim_some]
  apply pushes
  rw [List.cons_append]
  apply takes
  rw [List.singleton_append, runs_localSet, if_pos inside]
  exact goes _ rfl

/-- Wherever a word of a type holds a datum, the code that absorbs it takes the running
hash to what absorbing the datum gives. -/
def Folded (engine : Engine) (program : Program) (shapes : List Ty) (at_ : Where)
    (memory : Memory) (datum : Datum) : Prop :=
  ∀ (ty : Ty) (word : Int) (hash : Hash), Available program shapes ty →
    Holds program memory datum ty word →
    ∃ later, absorb hash (laidOut program datum ty) = some later ∧
      (∀ call, folds ty at_ = some (some call) → Takes engine memory call word hash later) ∧
      (folds ty at_ = some none → later = hash.word (.ofInt word))

/-- The code that absorbs a value. -/
theorem Folded.absorbs {datum : Datum} {ty : Ty} {word : Int}
    (folded : Folded engine program shapes at_ memory datum)
    (emitted : Emitted engine program shapes at_) (available : Available program shapes ty)
    (holds : Holds program memory datum ty word) (hash : Hash) :
    ∃ later, absorb hash (laidOut program datum ty) = some later ∧
      ∀ loaded, ∃ code, absorbValue loaded ty at_ = some code ∧
        ∀ locals : List Value, locals[2]? = some (travels hash) →
          Pushes engine memory locals loaded (word64 word) →
          Folds engine memory locals code later := by
  rcases folded ty word hash available holds with ⟨later, absorbed, calls, words⟩
  refine ⟨later, absorbed, fun loaded => ?_⟩
  rcases folds_available emitted available with ⟨_ | call, found⟩
  · refine ⟨Code.absorb loaded, by rw [absorbValue, found]; rfl, ?_⟩
    intro locals held pushes
    rw [words found]
    exact folds_absorb held pushes
  · refine ⟨[.localGet 2] ++ loaded ++ [call, .localSet 2], by rw [absorbValue, found]; rfl, ?_⟩
    intro locals held pushes
    exact folds_call held pushes (calls call found)

/-! ## Records and choices -/

/-- A place in the fields of a value at an address, and the value that is read there. -/
def ReadAt (engine : Engine) (program : Program) (shapes : List Ty) (at_ : Where)
    (memory : Memory) (tagged : Bool) (address : Nat) (place : Nat × Ty)
    (value : Eval.Value) : Prop :=
  Available program shapes place.2 ∧
    ∃ datum word, Folded engine program shapes at_ memory datum ∧
      memory.read (address + (fieldOffset tagged place.1).toNat) = some word ∧
      Holds program memory datum place.2 word ∧ value = laidOut program datum place.2

/-- The fields of a variant, with what is read of each. -/
theorem fields_read {tagged : Bool} {declared : List Field} {data : List Datum}
    (size : memory.size ≤ 2 ^ 30)
    (available : ∀ one ∈ declared, Available program shapes one.ty)
    (each : ∀ datum ∈ data, Folded engine program shapes at_ memory datum) (position : Nat)
    (row : HoldsRow program memory data (declared.map Field.ty)
      (address + ((if tagged then 1 else 0) + position) * 8)) :
    List.Forall₂ (Paired (ReadAt engine program shapes at_ memory tagged address))
      ((declared.zipIdx position).map fun one => (one.1.name, one.2, one.1.ty))
      ((declared.map Field.name).zip
        (laidOutRow program data (declared.map Field.ty))) := by
  induction declared generalizing position data with
  | nil => exact List.Forall₂.nil
  | cons one declared ih =>
      rcases data with _ | ⟨first, data⟩
      · exact absurd row (by simp [HoldsRow])
      rw [List.map_cons, HoldsRow] at row
      rcases row with ⟨⟨word, reads, here⟩, after⟩
      have inside := read_inside reads
      have offset := @Equality.toNat_fieldOffset tagged position (by omega)
      rw [← offset] at reads
      have next : address + ((if tagged then 1 else 0) + position) * 8 + WORD =
          address + ((if tagged then 1 else 0) + (position + 1)) * 8 := by
        rw [WORD_eq]
        ring
      rw [next] at after
      rw [List.zipIdx_cons, List.map_cons, List.map_cons, List.map_cons, laidOutRow,
        List.zip_cons_cons]
      refine List.Forall₂.cons ⟨rfl, available one List.mem_cons_self, first, word,
        each first List.mem_cons_self, reads, here, rfl⟩ ?_
      exact ih (fun one present => available one (List.mem_cons_of_mem _ present))
        (fun datum present => each datum (List.mem_cons_of_mem _ present)) (position + 1) after

/-- A step that answers for each element answers for all of them. -/
theorem mapM_of_each {α β : Type} {f : α → Option (List β)} {elements : List α}
    (each : ∀ element ∈ elements, ∃ answer, f element = some answer) :
    elements.mapM f = some (elements.map fun element => (f element).getD []) := by
  induction elements with
  | nil => rfl
  | cons first rest ih =>
      rcases each first List.mem_cons_self with ⟨answer, found⟩
      rw [List.mapM_cons, found, ih fun element present =>
        each element (List.mem_cons_of_mem _ present), List.map_cons, found]
      rfl

theorem field_available {tagged : Bool} {entry : String × Nat × Ty}
    (emitted : Emitted engine program shapes at_)
    (available : Available program shapes entry.2.2) :
    ∃ code, field tagged at_ entry = some code := by
  rcases folds_available emitted available with ⟨call, found⟩
  rw [field, absorbValue, found]
  exact ⟨_, rfl⟩

theorem pushes_load {offset : UInt32} {word : Int}
    (held : locals[3]? = some (word32 address)) (small : address < 2 ^ 32)
    (reads : memory.read (address + offset.toNat) = some word) :
    Pushes engine memory locals [.localGet 3, .i64Load offset] (word64 word) := by
  intro rest stack post runs
  have found : locals[(3 : UInt32).toNat]? = some (word32 address) := held
  rw [List.cons_append, List.singleton_append, runs_localGet, found, Option.elim_some,
    runs_i64Load small, reads, Option.elim_some]
  exact runs

/-- The fields that are read are absorbed, name and value, in their order. -/
theorem folds_fields {tagged : Bool} {entries : List (String × Nat × Ty)}
    {values : List (String × Eval.Value)}
    (emitted : Emitted engine program shapes at_) (small : address < 2 ^ 32)
    (read : List.Forall₂ (Paired (ReadAt engine program shapes at_ memory tagged address))
      entries values) (hash : Hash) :
    ∃ later, absorbFields hash values = some later ∧
      ∃ codes, entries.mapM (field tagged at_) = some codes ∧
        ∀ locals : List Value, locals[2]? = some (travels hash) →
          locals[3]? = some (word32 address) →
          Folds engine memory locals (seq codes) later := by
  induction read generalizing hash with
  | nil => exact ⟨hash, rfl, [], rfl, fun locals held _ => folds_nil held⟩
  | @cons entry named entries values pair rest ih =>
      rcases entry with ⟨name, position, ty⟩
      rcases named with ⟨called, value⟩
      rcases pair with ⟨same, available, datum, word, folded, reads, holds, rfl⟩
      cases same
      rcases folded.absorbs emitted available holds (hash.text name) with
        ⟨middle, absorbed, codes⟩
      rcases codes [.localGet 3, .i64Load (fieldOffset tagged position)] with
        ⟨code, compiled, does⟩
      rcases ih middle with ⟨later, absorbedAll, codes, compiledAll, doesAll⟩
      have one : field tagged at_ (name, position, ty) = some (absorbName name ++ code) := by
        rw [field, compiled]
        rfl
      refine ⟨later, ?_, (absorbName name ++ code) :: codes, ?_, ?_⟩
      · rw [absorbFields, absorbed]
        exact absorbedAll
      · rw [List.mapM_cons, one, compiledAll]
        rfl
      · intro locals held placed
        have inside : 2 < locals.length := (List.getElem?_eq_some_iff.1 held).1
        have held' : ∀ hash : Hash,
            (locals.set 2 (travels hash))[2]? = some (travels hash) :=
          fun _ => List.getElem?_set_self inside
        have placed' : ∀ hash : Hash,
            (locals.set 2 (travels hash))[3]? = some (word32 address) :=
          fun _ => (List.getElem?_set_ne (by decide)).trans placed
        rw [seq_cons]
        have first := (folds_name name held).append (does (locals.set 2 (travels _))
          (held' _) (pushes_load (placed' _) small reads))
        exact first.append (doesAll _ (held' middle) (placed' middle))

/-- One variant of a layout takes the hash to what absorbing the value gives. -/
theorem folds_arm {layout : Layout} {variant : Nat} {held : Variant} {data : List Datum}
    (emitted : Emitted engine program shapes at_) (size : memory.size ≤ 2 ^ 30)
    (small : address < 2 ^ 32) (found : layout.variants[variant]? = some held)
    (available : ∀ one ∈ held.fields, Available program shapes one.ty)
    (each : ∀ datum ∈ data, Folded engine program shapes at_ memory datum)
    (row : HoldsRow program memory data (held.fields.map Field.ty)
      (address + if layout.isTagged then WORD else 0)) (hash : Hash) :
    ∃ later, absorb hash (assembled layout variant
        (laidOutRow program data (held.fields.map Field.ty))) = some later ∧
      ∃ code, arm layout.choice layout.isTagged at_ held = some code ∧
        ∀ locals : List Value, locals[2]? = some (travels hash) →
          locals[3]? = some (word32 address) → Folds engine memory locals code later := by
  have start : address + (if layout.isTagged then WORD else 0) =
      address + ((if layout.isTagged then 1 else 0) + 0) * 8 := by
    cases layout.isTagged <;> rfl
  rw [start] at row
  have read := sorted_paired (fields_read size available each 0 row)
  have lengths : (sorted ((held.fields.map Field.name).zip
      (laidOutRow program data (held.fields.map Field.ty)))).length = held.fields.length := by
    rw [← read.length_eq, (sorted_perm _).length_eq, List.length_map, List.length_zipIdx]
  have named : layout.variants.getD variant ⟨"", []⟩ = held := by
    rw [List.getD_eq_getElem?_getD, found]
    rfl
  have counted : ∀ hash : Hash, ∀ locals : List Value, locals[2]? = some (travels hash) →
      Folds engine memory locals
        (Code.absorb [.i64Const (.ofNat held.fields.length)])
        (hash.word (.ofNat held.fields.length)) :=
    fun hash locals holds => folds_absorb holds pushes_const
  have stays : ∀ locals : List Value, locals[3]? = some (word32 address) → ∀ hash : Hash,
      (locals.set 2 (travels hash))[3]? = some (word32 address) :=
    fun locals placed _ => (List.getElem?_set_ne (by decide)).trans placed
  have goes : ∀ locals : List Value, ∀ hash later : Hash,
      locals[2]? = some (travels hash) →
      (locals.set 2 (travels later))[2]? = some (travels later) :=
    fun locals _ _ holds => List.getElem?_set_self (List.getElem?_eq_some_iff.1 holds).1
  rw [assembled, named]
  cases choice : layout.choice with
  | true =>
      rcases folds_fields emitted small read
        ((hash.text held.name).word (.ofNat held.fields.length)) with
        ⟨later, absorbed, codes, compiled, does⟩
      refine ⟨later, ?_, absorbName held.name ++
        Code.absorb [.i64Const (.ofNat held.fields.length)] ++ seq codes, ?_, ?_⟩
      · rw [if_pos rfl, absorb, lengths]
        exact absorbed
      · rw [arm, ordered, compiled]
        rfl
      · intro locals holds placed
        have first := (folds_name held.name holds).append
          (counted _ _ (goes locals hash _ holds))
        exact first.append (does _ (goes locals hash _ holds) (stays locals placed _))
  | false =>
      rcases folds_fields emitted small read (hash.word (.ofNat held.fields.length)) with
        ⟨later, absorbed, codes, compiled, does⟩
      refine ⟨later, ?_, Code.absorb [.i64Const (.ofNat held.fields.length)] ++ seq codes,
        ?_, ?_⟩
      · rw [if_neg Bool.false_ne_true, absorb, lengths]
        exact absorbed
      · rw [arm, ordered, compiled]
        rfl
      · intro locals holds placed
        exact (counted hash locals holds).append
          (does _ (goes locals hash _ holds) (stays locals placed _))

theorem arm_available {choice tagged : Bool} {held : Variant}
    (emitted : Emitted engine program shapes at_)
    (available : ∀ one ∈ held.fields, Available program shapes one.ty) :
    ∃ code, arm choice tagged at_ held = some code := by
  have each : ∀ entry ∈ ordered held, ∃ code, field tagged at_ entry = some code := by
    intro entry listed
    apply field_available emitted
    rcases List.mem_map.1 ((sorted_perm _).mem_iff.1 listed) with ⟨one, placed, rfl⟩
    exact available one.1 (List.fst_mem_of_mem_zipIdx placed)
  rw [arm, mapM_of_each each]
  exact ⟨_, rfl⟩

/-- Starts a fold from the hash that was handed in. -/
theorem does_opened {first : Value} {extra : List Value} :
    Does engine ⟨memory, travels hash :: word64 address :: first :: word32 0 :: extra⟩ opened
      (fun now => now =
        travels hash :: word64 address :: travels hash :: word32 address :: extra)
      (fun _ => False) := by
  intro rest stack post goes ends
  simp only [opened, List.cons_append, List.nil_append, runs_localGet, UInt32.reduceToNat,
    List.getElem?_cons_zero, List.getElem?_cons_succ, Option.elim_some, runs_i32WrapI64,
    runs_localSet, List.length_cons, List.set_cons_zero, List.set_cons_succ]
  rw [if_pos (by omega), if_pos (by omega)]
  exact goes _ rfl

/-- What a fold does answers the hash that it comes to. -/
theorem answers_of_folds {code : List Ins} {later : Hash} {last : List Value → Prop}
    (does : Does engine ⟨memory, locals⟩ code last fun _ => False)
    (held : ∀ now, last now → now[2]? = some (travels later)) :
    Runs engine (code ++ [.localGet 2, .return_]) ⟨memory, locals, []⟩
      (Answered (fun after value => after = memory ∧ value = travels later)
        fun _ => False) := by
  apply does
  · intro now arrived
    have found : now[(2 : UInt32).toNat]? = some (travels later) := held now arrived
    rw [runs_localGet, found, Option.elim_some]
    exact runs_return.2 (answered_returned.2 ⟨rfl, rfl⟩)
  · exact fun _ => False.elim

/-- The locals that a fold starts with. -/
def entered (hash : Hash) (word : Int) : List Value :=
  [travels hash, word64 word, .i64 0, .i32 0, .i32 0, .i32 0]

theorem runs_aggregate {id : LayoutId} {datum : Datum} {word : Int}
    (emitted : Emitted engine program shapes at_) (size : memory.size ≤ 2 ^ 30)
    (available : ∀ held ∈ Equality.heldBy program (.aggregate id),
      Available program shapes held)
    (each : ∀ inner, sizeOf inner < sizeOf datum →
      Folded engine program shapes at_ memory inner)
    (holds : Holds program memory datum (.aggregate id) word) (hash : Hash) :
    ∃ later, absorb hash (laidOut program datum (.aggregate id)) = some later ∧
      Runs engine (compile program (.aggregate id) at_).2 ⟨memory, entered hash word, []⟩
        (Answered (fun after value => after = memory ∧ value = travels later)
          fun _ => False) := by
  rcases holds.ofAggregate with ⟨variant, data, held, rfl, found, a, rfl, room, tag, row⟩
  have listed : ∀ other ∈ (program.layout id).variants,
      ∀ one ∈ other.fields, Available program shapes one.ty := by
    intro other declared one present
    exact available _ (List.mem_flatMap.2 ⟨other, declared, List.mem_map_of_mem present⟩)
  have small : a < 2 ^ 32 := by omega
  rcases folds_arm emitted size small found (listed held (List.mem_of_getElem? found))
    (fun datum present => each datum (Datum.sizeOf_field present)) row hash with
    ⟨later, absorbed, code, compiled, does⟩
  have named : (program.layout id).variants.getD variant ⟨"", []⟩ = held := by
    rw [List.getD_eq_getElem?_getD, found]
    rfl
  refine ⟨later, ?_, ?_⟩
  · rw [laidOut, layoutOf, named]
    exact absorbed
  · have armed : ∀ other ∈ (program.layout id).variants, ∃ code,
        arm (program.layout id).choice (program.layout id).isTagged at_ other = some code :=
      fun other declared => arm_available emitted (listed other declared)
    have bodies := mapM_of_each armed
    have whole : (compile program (.aggregate id) at_).2 = (opened ++
        arms 3 (program.layout id).isTagged ((program.layout id).variants.map fun other =>
          (arm (program.layout id).choice (program.layout id).isTagged at_ other).getD []) 0) ++
        [.localGet 2, .return_] := by
      rw [compile, aggregate, bodies]
      simp only [Option.map_some, Option.getD_some, seq_cons, seq_nil, List.append_nil,
        List.append_assoc]
    rw [whole]
    have chosen : Does engine
        ⟨memory, [travels hash, word64 a, travels hash, word32 a, .i32 0, .i32 0]⟩
        (arms 3 (program.layout id).isTagged ((program.layout id).variants.map fun other =>
          (arm (program.layout id).choice (program.layout id).isTagged at_ other).getD []) 0)
        (fun now => now =
          [travels hash, word64 a, travels later, word32 a, .i32 0, .i32 0])
        (fun _ => False) := by
      apply does_arms (program.variants_lt id) found rfl small tag
      · rintro now rfl
        rfl
      · rw [compiled]
        exact does [travels hash, word64 a, travels hash, word32 a, .i32 0, .i32 0] rfl rfl
    have started : Does engine ⟨memory, entered hash a⟩ (opened ++
        arms 3 (program.layout id).isTagged ((program.layout id).variants.map fun other =>
          (arm (program.layout id).choice (program.layout id).isTagged at_ other).getD []) 0)
        (fun now => now =
          [travels hash, word64 a, travels later, word32 a, .i32 0, .i32 0])
        (fun _ => False) := by
      apply Does.append does_opened
      rintro now rfl
      exact chosen
    apply answers_of_folds started
    rintro now rfl
    rfl

/-! ## Lists -/

theorem absorbElements_append {hash : Hash} (values : List Eval.Value) (value : Eval.Value) :
    absorbElements hash (values ++ [value]) =
      (absorbElements hash values).bind fun later => absorb later value := by
  induction values generalizing hash with
  | nil =>
      rw [List.nil_append, absorbElements, absorbElements, Option.bind_some]
      cases absorb hash value <;> rfl
  | cons first values ih =>
      rw [List.cons_append, absorbElements, absorbElements, Option.bind_assoc]
      congr 1
      funext later
      exact ih

theorem laidOutRow_length {data : List Datum} {types : List Ty}
    (lengths : data.length = types.length) :
    (laidOutRow program data types).length = data.length := by
  induction data generalizing types with
  | nil =>
      cases types with
      | nil => rfl
      | cons ty types => exact absurd lengths.symm (Nat.succ_ne_zero _)
  | cons datum data ih =>
      cases types with
      | nil => exact absurd lengths (Nat.succ_ne_zero _)
      | cons ty types =>
          rw [laidOutRow, List.length_cons, List.length_cons,
            ih (Nat.succ.inj lengths)]

theorem laidOutRow_get {data : List Datum} {element : Ty} {index : Nat}
    (below : index < data.length) :
    (laidOutRow program data (List.replicate data.length element))[index]? =
      some (laidOut program data[index] element) := by
  induction data generalizing index with
  | nil => exact absurd below (Nat.not_lt_zero _)
  | cons datum data ih =>
      rw [List.length_cons, List.replicate_succ, laidOutRow]
      cases index with
      | zero => rfl
      | succ index => exact ih (Nat.lt_of_succ_lt_succ below)

/-- What the loop over the elements keeps: the elements before the counter are
absorbed. -/
def Walked (memory : Memory) (locals : List Value) (start : Hash)
    (values : List Eval.Value) (count : Nat) (now : Memory) (reached : List Value) : Prop :=
  now = memory ∧ ∃ hash, absorbElements start (values.take count) = some hash ∧
    reached = (locals.set 2 (travels hash)).set 5 (word32 count)

/-- The loop over the elements of a list. -/
theorem does_walk {a : Nat} {element : Ty} {data : List Datum} {turn : List Ins}
    (emitted : Emitted engine program shapes at_) (size : memory.size ≤ 2 ^ 30)
    (available : Available program shapes element)
    (compiled : absorbValue (elementAt 3 5 ++ [.i64Load 0]) element at_ = some turn)
    (each : ∀ datum ∈ data, Folded engine program shapes at_ memory datum)
    (length : locals.length = 6) (held : locals[2]? = some (travels hash))
    (placed : locals[3]? = some (word32 a))
    (counted : locals[4]? = some (word32 data.length))
    (inside : a + 8 + data.length * 8 ≤ memory.size)
    (row : HoldsRow program memory data (List.replicate data.length element) (a + 8)) :
    ∃ later, absorbElements hash
        (laidOutRow program data (List.replicate data.length element)) = some later ∧
      Does engine ⟨memory, locals⟩ (countTo 5 4 turn)
        (fun now => now[2]? = some (travels later)) fun _ => False := by
  have lengths : (laidOutRow program data (List.replicate data.length element)).length =
      data.length := laidOutRow_length List.length_replicate.symm
  generalize rowed : laidOutRow program data (List.replicate data.length element) = values
  rw [rowed] at lengths
  -- The element at the counter takes the hash one step on.
  have step : ∀ (count : Nat) (below : count < data.length) (before : Hash),
      ∃ after word, memory.read (a + 8 + count * WORD) = some word ∧
        absorb before (laidOut program data[count] element) = some after ∧
        values.take (count + 1) = values.take count ++ [laidOut program data[count] element] ∧
        ∀ locals : List Value, locals[2]? = some (travels before) →
          Pushes engine memory locals (elementAt 3 5 ++ [.i64Load 0]) (word64 word) →
          Folds engine memory locals turn after := by
    intro count below before
    have typed : (List.replicate data.length element)[count]? = some element := by
      rw [List.getElem?_replicate, if_pos below]
    rcases row.get (List.getElem?_eq_getElem below) typed with ⟨word, reads, holds⟩
    rcases (each _ (List.getElem_mem below)).absorbs emitted available holds before with
      ⟨after, absorbed, codes⟩
    rcases codes (elementAt 3 5 ++ [.i64Load 0]) with ⟨code, found, does⟩
    rw [Option.some.inj (found.symm.trans compiled)] at does
    have value : values[count]? = some (laidOut program data[count] element) := by
      rw [← rowed]
      exact laidOutRow_get below
    refine ⟨after, word, reads, absorbed, ?_, does⟩
    rw [List.take_add_one, value]
    rfl
  have reached : ∀ count, count ≤ data.length →
      ∃ later, absorbElements hash (values.take count) = some later := by
    intro count
    induction count with
    | zero => exact fun _ => ⟨hash, rfl⟩
    | succ count ih =>
        intro within
        rcases ih (Nat.le_of_succ_le within) with ⟨before, absorbed⟩
        rcases step count within before with ⟨after, word, -, one, longer, -⟩
        refine ⟨after, ?_⟩
        rw [longer, absorbElements_append, absorbed, Option.bind_some, one]
  rcases reached data.length (Nat.le_refl _) with ⟨later, absorbed⟩
  have whole : values.take data.length = values := by
    rw [← lengths, List.take_length]
  refine ⟨later, by rw [← whole]; exact absorbed, ?_⟩
  intro rest stack post goes ends
  have start : Walked memory locals hash values 0 memory (locals.set 5 (word32 0)) := by
    refine ⟨rfl, hash, rfl, ?_⟩
    rcases List.getElem?_eq_some_iff.1 held with ⟨within, found⟩
    rw [← found, List.set_getElem_self]
  refine runs_countTo data.length (Walked memory locals hash values) (by omega)
    (by rw [length]; exact Nat.lt_of_sub_eq_succ rfl) start ?_ ?_ ?_
  · rintro count now last ⟨-, before, -, rfl⟩
    constructor
    · apply List.getElem?_set_self
      rw [List.length_set, length]
      exact Nat.lt_of_sub_eq_succ rfl
    · exact ((List.getElem?_set_ne (by decide)).trans
        (List.getElem?_set_ne (by decide))).trans counted
  · rintro count now last below ⟨rfl, before, sofar, rfl⟩
    rcases step count below before with ⟨after, word, reads, one, longer, folds⟩
    have held' : ((locals.set 2 (travels before)).set 5 (word32 count))[2]? =
        some (travels before) := by
      rw [List.getElem?_set_ne (by decide)]
      exact List.getElem?_set_self (by omega)
    have counter : ((locals.set 2 (travels before)).set 5
        (word32 count))[UInt32.toNat 5]? = some (word32 count) := by
      apply List.getElem?_set_self
      rw [List.length_set, length]
      exact Nat.lt_of_sub_eq_succ rfl
    have base : ((locals.set 2 (travels before)).set 5
        (word32 count))[UInt32.toNat 3]? = some (word32 a) :=
      ((List.getElem?_set_ne (by decide)).trans (List.getElem?_set_ne (by decide))).trans
        placed
    have pushes : Pushes engine now ((locals.set 2 (travels before)).set 5 (word32 count))
        (elementAt 3 5 ++ [.i64Load 0]) (word64 word) := by
      intro rest stack post runs
      rw [WORD_eq] at reads
      rw [List.append_assoc, runs_elementAt base counter, List.singleton_append,
        runs_i64Load (by omega), UInt32.toNat_zero, Nat.add_zero, reads, Option.elim_some]
      exact runs
    refine folds _ held' pushes _ _ _ ?_ fun _ => False.elim
    rintro next rfl
    have counter' : (((locals.set 2 (travels before)).set 5 (word32 count)).set 2
        (travels after))[UInt32.toNat 5]? = some (word32 count) :=
      (List.getElem?_set_ne (by decide)).trans counter
    have further : Walked now locals hash values (count + 1) now
        ((((locals.set 2 (travels before)).set 5 (word32 count)).set 2
          (travels after)).set 5 (word32 (count + 1))) := by
      refine ⟨rfl, after, ?_, ?_⟩
      · rw [longer, absorbElements_append, sofar, Option.bind_some, one]
      · rw [List.set_comm _ _ (by decide), List.set_set, List.set_comm _ _ (by decide),
          List.set_set]
    exact (runs_nextTurn counter').2 further
  · rintro now last ⟨rfl, after, sofar, rfl⟩
    apply goes
    rw [Option.some.inj (absorbed.symm.trans sofar), List.getElem?_set_ne (by decide)]
    exact List.getElem?_set_self (by omega)

theorem runs_list {element : Ty} {datum : Datum} {word : Int}
    (emitted : Emitted engine program shapes at_) (size : memory.size ≤ 2 ^ 30)
    (available : Available program shapes element)
    (each : ∀ inner, sizeOf inner < sizeOf datum →
      Folded engine program shapes at_ memory inner)
    (holds : Holds program memory datum (.list element) word) (hash : Hash) :
    ∃ later, absorb hash (laidOut program datum (.list element)) = some later ∧
      Runs engine (compile program (.list element) at_).2 ⟨memory, entered hash word, []⟩
        (Answered (fun after value => after = memory ∧ value = travels later)
          fun _ => False) := by
  rcases holds.ofList with ⟨data, rfl, a, rfl, reads, row⟩
  have inside := read_inside reads
  rw [ELEMENTS_eq] at row
  have lengths : (laidOutRow program data (List.replicate data.length element)).length =
      data.length := laidOutRow_length List.length_replicate.symm
  rcases folds_available emitted available with ⟨call, found⟩
  have compiled : ∃ turn, absorbValue (elementAt 3 5 ++ [.i64Load 0]) element at_ =
      some turn := by
    rw [absorbValue, found]
    exact ⟨_, rfl⟩
  rcases compiled with ⟨turn, compiled⟩
  -- The length is absorbed, and counted.
  have counted : ∀ rest : List Value, Does engine
      ⟨memory, travels hash :: word64 a :: travels hash :: word32 a :: rest⟩
      (Code.absorb [.localGet 3, .i64Load 0])
      (fun now => now = travels hash :: word64 a ::
        travels (hash.word (.ofNat data.length)) :: word32 a :: rest)
      fun _ => False := by
    intro rest
    have pushes : Pushes engine memory
        (travels hash :: word64 a :: travels hash :: word32 a :: rest)
        [.localGet 3, .i64Load 0] (word64 data.length) :=
      pushes_load rfl (by omega) reads
    rw [word64, Int64.ofInt_eq_ofNat] at pushes
    exact folds_absorb rfl pushes
  have measured : Does engine
      ⟨memory, [travels hash, word64 a, travels (hash.word (.ofNat data.length)), word32 a,
        word32 0, word32 0]⟩
      [.localGet 3, .i64Load 0, .i32WrapI64, .localSet 4]
      (fun now => now = [travels hash, word64 a, travels (hash.word (.ofNat data.length)),
        word32 a, word32 data.length, word32 0]) fun _ => False := by
    intro rest stack post goes ends
    simp only [List.cons_append, List.nil_append, runs_localGet, UInt32.reduceToNat,
      List.getElem?_cons_zero, List.getElem?_cons_succ, Option.elim_some]
    rw [runs_i64Load (by omega), UInt32.toNat_zero, Nat.add_zero, reads, Option.elim_some,
      runs_i32WrapI64, runs_localSet, if_pos (Nat.lt_of_sub_eq_succ rfl)]
    exact goes _ rfl
  have turns : ∃ later, absorbElements (hash.word (.ofNat data.length))
        (laidOutRow program data (List.replicate data.length element)) = some later ∧
      Does engine ⟨memory, [travels hash, word64 a,
          travels (hash.word (.ofNat data.length)), word32 a, word32 data.length, word32 0]⟩
        (countTo 5 4 turn) (fun now => now[2]? = some (travels later)) fun _ => False :=
    does_walk emitted size available compiled (fun datum present => each datum
      (Datum.sizeOf_element present)) rfl rfl rfl rfl (row.inside inside) row
  rcases turns with ⟨later, absorbed, walks⟩
  refine ⟨later, ?_, ?_⟩
  · rw [laidOut, elementOf, absorb, lengths]
    exact absorbed
  · have whole : Does engine ⟨memory, entered hash a⟩ (opened ++
        (Code.absorb [.localGet 3, .i64Load 0] ++
          ([.localGet 3, .i64Load 0, .i32WrapI64, .localSet 4] ++ countTo 5 4 turn)))
        (fun now => now[2]? = some (travels later)) fun _ => False := by
      apply Does.append does_opened
      rintro now rfl
      apply (counted _).append
      rintro now rfl
      apply measured.append
      rintro now rfl
      exact walks
    have answers := answers_of_folds whole fun now holds => holds
    rw [compile, list, compiled]
    simp only [Option.map_some, Option.getD_some, seq_cons, seq_nil, List.append_nil,
      List.append_assoc] at answers ⊢
    exact answers

/-! ## Every shape -/

/-- A shape with a fold of its own is taken into the hash by a call. -/
theorem takes_walked {ty : Ty} {word : Int} {later : Hash}
    (emitted : Emitted engine program shapes at_) (walks : walked ty = true)
    (present : ty ∈ shapes)
    (answers : Runs engine (compile program ty at_).2 ⟨memory, entered hash word, []⟩
      (Answered (fun after value => after = memory ∧ value = travels later)
        fun _ => False)) :
    (∀ call, folds ty at_ = some (some call) → Takes engine memory call word hash later) ∧
      (folds ty at_ = some none → later = hash.word (.ofInt word)) := by
  rcases walked_call emitted present with ⟨index, typeIndex, called, placed⟩
  have number : ty ≠ .str := by
    rintro rfl
    exact absurd walks Bool.false_ne_true
  have found : folds ty at_ = some (some (.call index)) := by
    rw [folds, if_neg number, if_pos walks, called]
    rfl
  constructor
  · intro call calls
    rw [found] at calls
    rw [← Option.some.inj (Option.some.inj calls)]
    exact takes_of_answers placed rfl answers
  · intro nothing
    rw [found] at nothing
    exact absurd (Option.some.inj nothing) (Option.some_ne_none _)

/-- A word is folded where it stands. -/
theorem takes_word {ty : Ty} {word : Int} (plain : walked ty = false) (number : ty ≠ .str) :
    (∀ call, folds ty at_ = some (some call) →
      Takes engine memory call word hash (hash.word (.ofInt word))) ∧
      (folds ty at_ = some none → hash.word (.ofInt word) = hash.word (.ofInt word)) := by
  refine ⟨?_, fun _ => rfl⟩
  intro call calls
  rw [folds, if_neg number, if_neg (by rw [plain]; exact Bool.false_ne_true)] at calls
  exact absurd (Option.some.inj calls).symm (Option.some_ne_none call)

/-- The text helper takes a string into the hash. -/
theorem takes_text {text : String} (emitted : Emitted engine program shapes at_)
    (pages : memory.pages ≤ engine.ceiling)
    (needed : Equality.needsText program shapes = true)
    (string : StringAt memory address text) :
    (∀ call, folds .str at_ = some (some call) →
      Takes engine memory call address hash
        ((hash.word (.ofNat text.length)).text text)) ∧
      (folds .str at_ = some none → (hash.word (.ofNat text.length)).text text =
        hash.word (.ofInt address)) := by
  have found : folds .str at_ = some (some (.call at_.hashText)) := rfl
  rcases emitted.text needed with ⟨typeIndex, placed⟩
  constructor
  · intro call calls
    rw [found] at calls
    rw [← Option.some.inj (Option.some.inj calls)]
    have answers : Answers engine ⟨fun _ => 0, fun _ => 0⟩ .hashedText memory
        [travels hash, word64 address]
        (fun after value => after = memory ∧
          value = travels ((hash.word (.ofNat text.length)).text text))
        (fun _ => False) := hashedText_answers string pages
    exact takes_of_answers placed rfl answers
  · intro nothing
    rw [found] at nothing
    exact absurd (Option.some.inj nothing) (Option.some_ne_none _)

/-- A word that needs no walk is absorbed as it is. -/
theorem absorb_word {datum : Datum} {ty : Ty} {word : Int} (plain : walked ty = false)
    (number : ty ≠ .str) (holds : Holds program memory datum ty word) :
    absorb hash (laidOut program datum ty) = some (hash.word (.ofInt word)) := by
  cases ty with
  | str => exact absurd rfl number
  | list element => exact absurd plain.symm Bool.false_ne_true
  | aggregate id => exact absurd plain.symm Bool.false_ne_true
  | unit =>
      cases datum <;> simp [Holds] at holds
      rw [holds]
      rfl
  | bool =>
      cases datum <;> simp [Holds] at holds
      next yes =>
        rw [holds]
        cases yes <;> rfl
  | int | capability | closure =>
      cases datum <;> simp [Holds] at holds
      rw [holds.1]
      rfl

/-- By induction on the value: whatever a word of a type holds is taken into the running
hash. -/
theorem folded (emitted : Emitted engine program shapes at_)
    (pages : memory.pages ≤ engine.ceiling)
    (closed : ∀ ty ∈ shapes, ∀ held ∈ Equality.heldBy program ty,
      Equality.walked held = true → held ∈ shapes)
    (datum : Datum) : Folded engine program shapes at_ memory datum := by
  have size := size_small pages
  induction datum using Datum.induct with
  | step datum each =>
      intro ty word hash available holds
      cases ty with
      | aggregate id =>
          have present := available.1 rfl
          rcases runs_aggregate emitted size (Equality.available_held closed present) each
            holds hash with ⟨later, absorbed, answers⟩
          exact ⟨later, absorbed, takes_walked emitted rfl present answers⟩
      | list element =>
          have present := available.1 rfl
          rcases runs_list emitted size
            (Equality.available_held closed present element List.mem_cons_self) each holds
            hash with ⟨later, absorbed, answers⟩
          exact ⟨later, absorbed, takes_walked emitted rfl present answers⟩
      | str =>
          rcases holds.ofText with ⟨text, rfl, a, rfl, string⟩
          exact ⟨_, rfl, takes_text emitted pages (available.2 rfl) string⟩
      | unit => exact ⟨_, absorb_word rfl Ty.noConfusion holds, takes_word rfl Ty.noConfusion⟩
      | bool => exact ⟨_, absorb_word rfl Ty.noConfusion holds, takes_word rfl Ty.noConfusion⟩
      | int => exact ⟨_, absorb_word rfl Ty.noConfusion holds, takes_word rfl Ty.noConfusion⟩
      | capability =>
          exact ⟨_, absorb_word rfl Ty.noConfusion holds, takes_word rfl Ty.noConfusion⟩
      | closure =>
          exact ⟨_, absorb_word rfl Ty.noConfusion holds, takes_word rfl Ty.noConfusion⟩

end Deed.Codegen.Hashing
