import Deed.Runtime.Values

/-!
# Text in memory

The rules for the pieces of code that read a string, and the comparison of two strings.
-/

namespace Deed.Runtime

open Deed.Wasm

variable {engine : Engine} {rest : List Ins} {post : Outcome → Prop}
  {memory after : Memory} {locals stack : List Value} {top address : Nat}
  {at_ : Where Helper} {text other : String}

theorem bytesOf_inj : bytesOf text = bytesOf other ↔ text = other := by
  constructor
  · intro same
    exact String.toByteArray_inj.1 (ByteArray.ext (Array.toList_inj.1 same))
  · rintro rfl
    rfl

theorem StringAt.small (string : StringAt memory address text)
    (pages : memory.pages ≤ engine.ceiling) :
    address + 16 + (bytesOf text).length ≤ 2 ^ 30 := by
  have room := string.room
  have most := engine.small
  rw [Memory.size, page] at room
  omega

theorem runs_byteLength {slot : UInt32} (string : StringAt memory address text)
    (pages : memory.pages ≤ engine.ceiling)
    (found : locals[slot.toNat]? = some (word64 address)) :
    Runs engine (byteLength slot ++ rest) ⟨memory, locals, stack⟩ post ↔
      Runs engine rest ⟨memory, locals, word32 (bytesOf text).length :: stack⟩ post := by
  have small := string.small pages
  simp (disch := omega) [byteLength, found, string.count]

/-- The byte of a string at an index that is inside it. -/
theorem runs_byteAt {slot index : UInt32} {count : Nat}
    (string : StringAt memory address text) (pages : memory.pages ≤ engine.ceiling)
    (found : locals[slot.toNat]? = some (word64 address))
    (counted : locals[index.toNat]? = some (word32 count))
    (below : count < (bytesOf text).length) :
    Runs engine (byteAt slot index ++ rest) ⟨memory, locals, stack⟩ post ↔
      Runs engine rest ⟨memory, locals, word32 ((bytesOf text)[count]).toNat :: stack⟩
        post := by
  have small := string.small pages
  have room := string.room
  have inside : address + 16 + count < memory.size := by omega
  have byte := string.bytes count below
  simp (disch := omega) [byteAt, textAt, found, counted, inside, byte]

/-! ## Comparing two strings -/

/-- What answers early where a test holds. -/
theorem runs_answer {holds : Prop} [Decidable holds] {value : Int32} :
    Runs engine (.if_ none [.i32Const value, .return_] [] :: rest)
        ⟨memory, locals, boolean holds :: stack⟩ post ↔
      if holds then post (.returned ⟨memory, locals, [.i32 value]⟩)
      else Runs engine rest ⟨memory, locals, stack⟩ post := by
  rw [runs_if]
  split
  · rw [runs_plain rfl]
    exact runs_return
  · rw [runs_nil, leave_normal, then_normal]

/-- What the loop of the comparison keeps: the bytes before the counter agree. -/
def Agreeing (memory : Memory) (left right : Nat) (text other : String) (count : Nat)
    (now : Memory) (locals : List Value) : Prop :=
  now = memory ∧
    locals = [word64 left, word64 right, word32 (bytesOf text).length, word32 count] ∧
    ∀ index, index < count → (bytesOf text)[index]? = (bytesOf other)[index]?

/-- `str_eq` answers whether the two strings are one. -/
theorem sameText_answers {left right : Nat} (first : StringAt memory left text)
    (second : StringAt memory right other) (pages : memory.pages ≤ engine.ceiling) :
    Answers engine at_ .sameText memory [word64 left, word64 right]
      (fun after value => after = memory ∧ value = boolean (text = other))
      (fun _ => False) := by
  have small := first.small pages
  have small' := second.small pages
  have differs : bytesOf text ≠ bytesOf other → Value.i32 0 = boolean (text = other) := by
    intro apart
    rw [boolean, if_neg fun same => apart (bytesOf_inj.2 same)]
  show Runs engine Code.strEq.2 ⟨memory, _, []⟩ _
  simp only [Helper.compile, Code.strEq, List.cons_append, List.nil_append, List.map_cons,
    List.map_nil, zero_i32, seq_cons, seq_nil, List.append_nil]
  rw [runs_byteLength first pages rfl, runs_localSet, if_pos (Nat.lt_of_sub_eq_succ rfl),
    runs_byteLength second pages rfl]
  simp (disch := omega) only [Code.answerWhen, when_, seq_cons, seq_nil, List.append_nil,
    List.append_assoc, List.cons_append, List.nil_append, UInt32.reduceToNat,
    List.set_cons_succ, List.set_cons_zero, runs_localGet, List.getElem?_cons_succ,
    List.getElem?_cons_zero, Option.elim_some, runs_i32Ne, runs_answer, ne_eq]
  by_cases lengths : (bytesOf other).length = (bytesOf text).length
  · rw [if_neg (not_not.2 lengths)]
    refine runs_countTo (bytesOf text).length (Agreeing memory left right text other)
      (by omega) (Nat.lt_of_sub_eq_succ rfl)
      ⟨rfl, rfl, fun _ below => absurd below (Nat.not_lt_zero _)⟩ ?_ ?_ ?_
    · rintro count now locals ⟨-, rfl, -⟩
      exact ⟨rfl, rfl⟩
    · rintro count now locals below ⟨rfl, rfl, agree⟩
      have below' : count < (bytesOf other).length := by omega
      have byte := (bytesOf text)[count].toNat_lt
      have byte' := (bytesOf other)[count].toNat_lt
      rw [List.append_assoc, runs_byteAt first pages rfl rfl below, List.append_assoc,
        runs_byteAt second pages rfl rfl below', List.cons_append, runs_i32Ne (by omega) (by omega),
        List.cons_append, runs_answer]
      by_cases same : (bytesOf text)[count].toNat = (bytesOf other)[count].toNat
      · rw [if_neg (not_not.2 same), List.nil_append, runs_nextTurn rfl]
        refine ⟨rfl, rfl, fun index under => ?_⟩
        rcases Nat.lt_succ_iff_lt_or_eq.1 under with before | rfl
        · exact agree index before
        · rw [List.getElem?_eq_getElem below, List.getElem?_eq_getElem below',
            UInt8.toNat_inj.1 same]
      · rw [if_pos same, looped_returned, answered_returned]
        refine ⟨rfl, differs fun alike => same ?_⟩
        simp only [alike]
    · rintro now locals ⟨rfl, rfl, agree⟩
      have alike : bytesOf text = bytesOf other := by
        apply List.ext_getElem? 
        intro index
        by_cases under : index < (bytesOf text).length
        · exact agree index under
        · rw [List.getElem?_eq_none (by omega), List.getElem?_eq_none (by omega)]
      rw [runs_plain rfl]
      refine runs_return.2 (answered_returned.2 ⟨rfl, ?_⟩)
      rw [boolean, if_pos (bytesOf_inj.1 alike)]
  · rw [if_pos lengths, answered_returned]
    exact ⟨rfl, differs fun alike => lengths (congrArg List.length alike.symm)⟩

end Deed.Runtime
