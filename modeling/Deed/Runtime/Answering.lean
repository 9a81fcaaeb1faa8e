import Deed.Runtime.Joining

/-!
# Results in memory

The block that a helper answers a `Result` in, and the refusal with a sentence.
-/

namespace Deed.Runtime

open Deed.Wasm

variable {engine : Engine} {rest : List Ins} {post : Outcome → Prop}
  {memory after : Memory} {locals stack : List Value} {top address : Nat}
  {at_ : Where Helper} {text : String}

/-- The `Result` whose address is `address`: its tag and what it holds. -/
structure ResultAt (memory : Memory) (address : Nat) (tag payload : Int) : Prop where
  tag : memory.read address = some tag
  payload : memory.read (address + 8) = some payload

theorem runs_i64Const_any {number : Int64} :
    Runs engine (.i64Const number :: rest) ⟨memory, locals, stack⟩ post ↔
      Runs engine rest ⟨memory, locals, word64 number.toInt :: stack⟩ post := by
  have same : word64 number.toInt = .i64 number := congrArg Value.i64 (Int64.ofInt_toInt number)
  rw [runs_plain rfl, same]
  rfl

/-- A result in a block of its own, or no room for it. -/
theorem runs_result {out : UInt32} {tag : Int64} {value : List Ins} {payload : Int}
    (heap : Heap engine memory top) (outIn : out.toNat < locals.length)
    (fits : Fits64 payload)
    (pushes : ∀ (after : Memory), Kept memory after top → ∀ (rest : List Ins)
      (stack : List Value) (post : Outcome → Prop),
      Runs engine (value ++ rest) ⟨after, locals.set out.toNat (word32 top), stack⟩ post ↔
        Runs engine rest
          ⟨after, locals.set out.toNat (word32 top), word64 payload :: stack⟩ post) :
    Runs engine (result out tag value) ⟨memory, locals, stack⟩
      (Answered (fun after answer => answer = word64 top ∧
        ResultAt after top tag.toInt payload ∧ Kept memory after top ∧
          top + 16 ≤ engine.ceiling * page) (Full engine top 16)) := by
  have size := heap.small
  have start := heap.start
  have inside := heap.inside
  rw [HEAP_START] at start
  rw [result, seq_cons]
  refine @runs_allocate engine _ _ memory _ _ top out _ 16 heap outIn (by decide) ?_ ?_ ?_
  · intro rest stack post
    exact runs_i64Const
  · intro after reserved room
    have found : (locals.set out.toNat (word32 top))[out.toNat]? = some (word32 top) :=
      List.getElem?_set_self outIn
    have filling := (reserved.filling heap.start).inside
    have tagFits : Fits64 tag.toInt := ⟨tag.le_toInt, tag.toInt_lt⟩
    simp (disch := omega) only [seq_cons, seq_nil, List.append_nil, List.cons_append,
      List.nil_append, runs_localGet, found, Option.elim_some, runs_i64Const_any,
      runs_i64Store, UInt32.reduceToNat, Nat.add_zero, if_pos]
    rw [pushes _ (reserved.kept.put (le_refl top))]
    simp (disch := omega) only [PAYLOAD_eq, UInt32.reduceOfNat, UInt32.reduceToNat,
      runs_localGet, found, Option.elim_some, runs_i64Store, Memory.size_put, if_pos,
      runs_i64ExtendI32S, runs_return, answered_returned, true_and]
    refine ⟨⟨?_, ?_⟩, ?_, room⟩
    · apply Memory.read_put_other (by omega)
      exact Memory.read_put (by omega) tagFits
    · exact Memory.read_put (by rw [Memory.size_put]; omega) fits
    · exact (reserved.kept.put (le_refl top)).put (Nat.le_add_right top 8)
  · exact fun full => ⟨rfl, full⟩

/-- What answers in one arm answers, and what goes on goes on. -/
theorem runs_answerIf {holds : Prop} [Decidable holds] {code : List Ins}
    {answers : Memory → Value → Prop} {stops : Trap → Prop}
    (answered : holds → Runs engine code ⟨memory, locals, []⟩ (Answered answers stops))
    (through : holds → ∀ outcome, Answered answers stops outcome → post outcome)
    (otherwise : ¬holds → Runs engine rest ⟨memory, locals, stack⟩ post) :
    Runs engine (.if_ none code [] :: rest) ⟨memory, locals, boolean holds :: stack⟩ post := by
  rw [runs_if]
  by_cases taken : holds
  · rw [if_pos taken]
    apply (answered taken).mono
    intro outcome answer
    cases outcome with
    | returned machine => exact through taken _ answer
    | trapped trap => exact through taken _ answer
    | normal machine => exact answer.elim
    | branch depth machine => exact answer.elim
  · rw [if_neg taken, runs_nil, leave_normal, then_normal]
    exact otherwise taken

end Deed.Runtime
