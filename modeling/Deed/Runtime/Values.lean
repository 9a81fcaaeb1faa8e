import Deed.Runtime.Rules

/-!
# Values in memory

Strings, lists and results in the layout of compiled code, and what it is for a
helper to answer.
-/

namespace Deed.Runtime

open Deed.Wasm

variable {engine : Engine} {rest : List Ins} {post : Outcome → Prop}
  {memory after : Memory} {locals stack : List Value} {top address : Nat}

/-- The bytes of a string, in UTF-8. -/
def bytesOf (text : String) : List UInt8 := text.toUTF8.data.toList

/-- The string whose address is `address`: its length in characters, its length in bytes,
and the bytes. -/
structure StringAt (memory : Memory) (address : Nat) (text : String) : Prop where
  characters : memory.read address = some (text.length : Int)
  count : memory.read (address + 8) = some ((bytesOf text).length : Int)
  inside : address + stringSize (bytesOf text).length ≤ memory.size
  bytes : ∀ index (below : index < (bytesOf text).length),
    memory.bytes (address + 16 + index) = (bytesOf text)[index]
  reserved : 8 ≤ address

/-- The list whose address is `address`: its length, and a word for each element. -/
structure ListAt (memory : Memory) (address : Nat) (elements : List Int) : Prop where
  count : memory.read address = some (elements.length : Int)
  inside : address + listSize elements.length ≤ memory.size
  elements : ∀ index (below : index < elements.length),
    memory.read (address + 8 + index * 8) = some elements[index]
  reserved : 8 ≤ address

theorem length_le_stringSize (bytes : Nat) : 16 + bytes ≤ stringSize bytes := by
  rw [stringSize, WORD]
  omega

theorem StringAt.room {text : String} (string : StringAt memory address text) :
    address + 16 + (bytesOf text).length ≤ memory.size := by
  have inside := string.inside
  have size := length_le_stringSize (bytesOf text).length
  omega

theorem StringAt.kept {text : String} (string : StringAt memory address text)
    (kept : Kept memory after top)
    (below : address + stringSize (bytesOf text).length ≤ top) :
    StringAt after address text := by
  have reserved := string.reserved
  have size := length_le_stringSize (bytesOf text).length
  constructor
  · exact kept.read reserved (by omega) string.characters
  · exact kept.read (by omega) (by omega) string.count
  · exact string.inside.trans kept.size
  · intro index within
    rw [kept.bytes _ (by omega) (by omega)]
    exact string.bytes index within
  · exact reserved

theorem ListAt.kept {elements : List Int} (list : ListAt memory address elements)
    (kept : Kept memory after top) (below : address + listSize elements.length ≤ top) :
    ListAt after address elements := by
  have reserved := list.reserved
  have size : listSize elements.length = 8 + elements.length * 8 := rfl
  constructor
  · exact kept.read reserved (by omega) list.count
  · exact list.inside.trans kept.size
  · intro index within
    exact kept.read (by omega) (by omega) (list.elements index within)
  · exact reserved

/-- The address of an element. -/
theorem runs_elementAt {base index : UInt32} {count : Nat}
    (atBase : locals[base.toNat]? = some (word32 address))
    (atIndex : locals[index.toNat]? = some (word32 count)) :
    Runs engine (elementAt base index ++ rest) ⟨memory, locals, stack⟩ post ↔
      Runs engine rest ⟨memory, locals, word32 (address + 8 + count * 8) :: stack⟩ post := by
  simp [elementAt, atBase, atIndex]

/-! ## Calls -/

/-- A function returned one value, with `answers` of it and of the memory, or it trapped
where `stops` says it may. -/
def Answered (answers : Memory → Value → Prop) (stops : Trap → Prop) : Outcome → Prop
  | .returned machine => ∃ value rest, machine.stack = value :: rest ∧
      answers machine.memory value
  | .trapped trap => stops trap
  | .normal _ => False
  | .branch _ _ => False

/-- A helper called with some arguments ends, and answers as `answers` says. -/
def Answers (engine : Engine) (at_ : Where Helper) (helper : Helper) (memory : Memory)
    (arguments : List Value) (answers : Memory → Value → Prop) (stops : Trap → Prop) :
    Prop :=
  Runs engine (helper.compile at_).2
    ⟨memory, arguments ++ (helper.compile at_).1.map Value.zero, []⟩
    (Answered answers stops)

/-- The module holds a helper at the index that its callers use. -/
def Linked (engine : Engine) (at_ : Where Helper) (helper : Helper) : Prop :=
  ∃ typeIndex, engine.module.function (at_.index helper).toNat =
    .ok (helper.signature, ⟨typeIndex, (helper.compile at_).1, (helper.compile at_).2⟩)

@[simp]
theorem answered_returned {answers : Memory → Value → Prop} {stops : Trap → Prop}
    {value : Value} :
    Answered answers stops (.returned ⟨memory, locals, value :: stack⟩) ↔
      answers memory value := by
  constructor
  · rintro ⟨found, rest, same, holds⟩
    rw [(List.cons.inj same).1]
    exact holds
  · intro holds
    exact ⟨value, stack, rfl, holds⟩

@[simp]
theorem answered_trapped {answers : Memory → Value → Prop} {stops : Trap → Prop}
    {trap : Trap} : Answered answers stops (.trapped trap) ↔ stops trap := Iff.rfl

/-- A call of a function of one result goes on with what the function answers. -/
theorem runs_call_placed {index typeIndex : UInt32} {signature : FuncType}
    {extra : List ValType} {body : List Ins} {arguments : List Value}
    {answers : Memory → Value → Prop} {stops : Trap → Prop} {ty : ValType}
    (found : engine.module.function index.toNat = .ok (signature, ⟨typeIndex, extra, body⟩))
    (arity : signature.params.length = arguments.length)
    (results : signature.results = [ty])
    (called : Runs engine body ⟨memory, arguments ++ extra.map Value.zero, []⟩
      (Answered answers stops))
    (continues : ∀ after value, answers after value →
      Runs engine rest ⟨after, locals, value :: stack⟩ post)
    (stopped : ∀ trap, stops trap → post (.trapped trap)) :
    Runs engine (.call index :: rest) ⟨memory, locals, arguments.reverse ++ stack⟩
      post := by
  rw [runs_call found]
  have entered : (⟨memory, locals, arguments.reverse ++ stack⟩ : Machine).enter
      signature ⟨typeIndex, extra, body⟩ =
      ⟨memory, arguments ++ extra.map Value.zero, []⟩ := by
    have taken : ((arguments.reverse ++ stack).take arguments.length).reverse =
        arguments := by
      rw [← List.length_reverse, List.take_left, List.reverse_reverse]
    rw [Machine.enter, arity, taken]
  rw [entered]
  apply Runs.mono called
  intro outcome answered
  cases outcome with
  | returned callee =>
      rcases answered with ⟨value, left, same, holds⟩
      have resumed : (⟨memory, locals, arguments.reverse ++ stack⟩ : Machine).resume
          callee signature = ⟨callee.memory, locals, value :: stack⟩ := by
        have dropped : (arguments.reverse ++ stack).drop arguments.length = stack := by
          rw [← List.length_reverse, List.drop_left]
        rw [Machine.resume, arity, results, same, dropped]
        rfl
      rw [Outcome.answer, resumed, then_normal]
      exact continues callee.memory value holds
  | trapped trap => exact stopped trap answered
  | normal callee => exact answered.elim
  | branch depth callee => exact answered.elim

/-- A call goes on with what the helper answers. -/
theorem runs_call_helper {at_ : Where Helper} {helper : Helper} {arguments : List Value}
    {answers : Memory → Value → Prop} {stops : Trap → Prop} {ty : ValType}
    (linked : Linked engine at_ helper)
    (arity : helper.signature.params.length = arguments.length)
    (results : helper.signature.results = [ty])
    (called : Answers engine at_ helper memory arguments answers stops)
    (continues : ∀ after value, answers after value →
      Runs engine rest ⟨after, locals, value :: stack⟩ post)
    (stopped : ∀ trap, stops trap → post (.trapped trap)) :
    Runs engine (at_.call helper :: rest)
      ⟨memory, locals, arguments.reverse ++ stack⟩ post := by
  rcases linked with ⟨typeIndex, found⟩
  exact runs_call_placed found arity results called continues stopped

end Deed.Runtime
