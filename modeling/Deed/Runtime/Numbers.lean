import Deed.Runtime.Answering
import Deed.Runtime.Reading

/-!
# Reading a number

`text_number`: two signs looked for one after the other, the digits taken below zero, and
a sentence where there is no number.
-/

namespace Deed.Runtime

open Deed.Wasm

variable {engine : Engine} {rest : List Ins} {post : Outcome → Prop}
  {memory after : Memory} {locals stack : List Value} {top address : Nat}
  {at_ : Where Helper} {text : String}

/-! ## The sentence -/

/-- The first half of the sentence, which is put together first. -/
def quoted (text : String) : String := "\x60" ++ text

/-- What a text that is no number is answered with. -/
def sentence (text : String) : String := quoted text ++ "\x60 is not a number"

/-- How many bytes a refusal takes: both halves of its sentence, and the result. -/
def refusalRoom (text : String) : Nat :=
  stringSize (bytesOf (quoted text)).length + stringSize (bytesOf (sentence text)).length + 16

/-- The block at an address holds the `Result` of a number or of a sentence. -/
def HoldsResult (memory : Memory) (block : Nat) : Eval.Value → Prop
  | .result true (.int number) => ResultAt memory block 0 number.toInt
  | .result false (.str text) =>
      ∃ sentence : Nat, ResultAt memory block 1 sentence ∧ StringAt memory sentence text
  | _ => False

/-- A result in a block of its own, which took `room` bytes. -/
def AnswersResult (engine : Engine) (top room : Nat) (answer : Eval.Value)
    (after : Memory) (value : Value) : Prop :=
  ∃ block : Nat, block < 2 ^ 32 ∧ value = word64 block ∧ HoldsResult after block answer ∧
    top + room ≤ engine.ceiling * page

/-- What reading a number rests on: a text and the parts of the sentence below the end of
the heap, and the helper that joins them. -/
structure Ready (engine : Engine) (at_ : Where Helper) (memory : Memory) (top address : Nat)
    (text : String) : Prop where
  heap : Heap engine memory top
  text : Stands memory top address text
  quote : Stands memory top (at_.place "\x60").toNat "\x60"
  tail : Stands memory top (at_.place "\x60 is not a number").toNat "\x60 is not a number"
  linked : Linked engine at_ .joinedText

theorem Answered.mono {answers weaker : Memory → Value → Prop} {stops further : Trap → Prop}
    {outcome : Outcome} (holds : ∀ after value, answers after value → weaker after value)
    (traps : ∀ trap, stops trap → further trap) (answered : Answered answers stops outcome) :
    Answered weaker further outcome := by
  cases outcome with
  | returned machine =>
      rcases answered with ⟨value, left, same, answer⟩
      exact ⟨value, left, same, holds _ _ answer⟩
  | trapped trap => exact traps trap answered
  | normal machine => exact answered
  | branch depth machine => exact answered

theorem Full.more {room further : Nat} {trap : Trap} (full : Full engine top room trap)
    (less : room ≤ further) : Full engine top further trap := by
  have past := full.2
  exact ⟨full.1, by omega⟩

/-- The refusal joins the sentence and answers with it. -/
theorem runs_refuse (ready : Ready engine at_ memory top address text)
    (source : locals[0]? = some (word64 address)) (slots : 7 < locals.length) :
    Runs engine (Code.refuse at_) ⟨memory, locals, []⟩
      (Answered (AnswersResult engine top (refusalRoom text)
        (Eval.Value.result false (.str (sentence text))))
        (Full engine top (refusalRoom text))) := by
  have body : Code.refuse at_ = at_.text "\x60" :: .localGet 0 :: at_.call .joinedText ::
      at_.text "\x60 is not a number" :: at_.call .joinedText :: .localSet 7 ::
        (result 6 ERR [.localGet 7]) := by
    rw [Code.refuse, seq_cons, seq_cons, seq_nil, List.append_nil]
    rfl
  rw [body, Where.text, runs_i64Const]
  simp only [runs_localGet, UInt32.reduceToNat, source, Option.elim_some]
  apply runs_join ready.linked ready.heap ready.quote ready.text
  · intro half made
    obtain ⟨middle, place⟩ : ∃ middle, middle = top + stringSize (bytesOf (quoted text)).length :=
      ⟨_, rfl⟩
    have heap : Heap engine half middle := place ▸ made.heap
    have first : Stands half middle top (quoted text) := place ▸ made.stands
    have tail := ready.tail.kept made.kept (show top ≤ middle by omega)
    rw [Where.text, runs_i64Const]
    apply runs_join ready.linked heap first tail
    · intro whole made'
      have small := made'.heap.small
      have inside := made'.heap.inside
      simp only [runs_localSet, UInt32.reduceToNat, slots, if_true]
      have fits : Fits64 (middle : Int) := by constructor <;> omega
      have slots' : (6 : UInt32).toNat < (locals.set 7 (word64 middle)).length := by
        rw [List.length_set]
        exact (show 6 < 7 by decide).trans slots
      apply (runs_result made'.heap slots' fits ?_).mono
      · intro outcome
        apply Answered.mono
        · rintro after value ⟨rfl, held, kept, room⟩
          refine ⟨_, by omega, rfl, ⟨middle, held, ?_⟩, ?_⟩
          · exact made'.string.kept kept (Nat.le_refl _)
          · rw [← sentence] at room
            rw [refusalRoom]
            omega
        · intro trap full
          have past := full.2
          rw [← sentence] at past
          exact ⟨full.1, by rw [refusalRoom]; omega⟩
      · intro after _ rest stack post
        have found : ((locals.set 7 (word64 middle)).set 6
            (word32 (middle + stringSize (bytesOf (sentence text)).length)))[7]? =
              some (word64 middle) := by
          rw [List.getElem?_set_ne (by decide), List.getElem?_set_self slots]
        simp only [List.cons_append, List.nil_append, runs_localGet, UInt32.reduceToNat]
        rw [← sentence, found, Option.elim_some]
    · intro trap full
      have past := full.2
      rw [← sentence] at past
      exact ⟨full.1, by rw [refusalRoom]; omega⟩
  · intro trap full
    exact full.more (by rw [refusalRoom, quoted]; omega)

/-! ## The signs and the digits -/

/-- The locals of the reading: the text and its byte length, where the reading is, whether
a minus was seen, the number so far and the byte it is at. -/
def numberFrame (address count index : Nat) (negative : Bool) (number : Int) (byte : Nat) :
    List Value :=
  [word64 address, word32 count, word32 index, word32 negative.toNat, word64 number,
    word32 byte, word32 0, word64 0]

/-- How far a sign character takes the reading. -/
def past (sign : UInt8) (bytes : List UInt8) (index : Nat) : Nat :=
  if bytes[index]? = some sign then index + 1 else index

theorem past_le (sign : UInt8) {bytes : List UInt8} {index : Nat}
    (early : index ≤ bytes.length) : past sign bytes index ≤ bytes.length := by
  rw [past]
  split
  · next found => exact (List.getElem?_eq_some_iff.1 found).1
  · exact early

/-- Both looks for a sign are inside the memory, unless an empty text ends with it. -/
theorem past_inside (string : StringAt memory address text)
    (inside : ¬(text = "" ∧ address + 16 = memory.size)) (sign : UInt8) :
    address + 16 + past sign (bytesOf text) 0 < memory.size := by
  have whole := string.inside
  have room := length_le_stringSize (bytesOf text).length
  rw [past]
  split
  · next found =>
      have some_ := (List.getElem?_eq_some_iff.1 found).1
      rw [stringSize, WORD] at whole
      omega
  · by_cases empty : text = ""
    · have apart : address + 16 ≠ memory.size := fun edge => inside ⟨empty, edge⟩
      omega
    · have some_ : (bytesOf text).length ≠ 0 := by
        intro none_
        rw [List.length_eq_zero_iff] at none_
        exact empty (bytesOf_inj.1 none_)
      omega

theorem drop_past (sign : UInt8) (bytes : List UInt8) (index : Nat) :
    bytes.drop (past sign bytes index) = afterSign sign (bytes.drop index) := by
  rw [past, afterSign, List.head?_drop]
  split
  · rw [List.tail_drop]
  · rfl

/-- A sign is stepped over where it stands, and a marking one is marked. -/
theorem runs_sign {sign : UInt8} {mark negative : Bool} {index : Nat}
    (string : StringAt memory address text) (pages : memory.pages ≤ engine.ceiling)
    (inside : address + 16 + index < memory.size) (early : index ≤ (bytesOf text).length) :
    Runs engine (Code.sign (.ofNat sign.toNat) mark ++ rest)
        ⟨memory, numberFrame address (bytesOf text).length index negative 0 0, []⟩ post ↔
      Runs engine rest
        ⟨memory, numberFrame address (bytesOf text).length (past sign (bytesOf text) index)
          (negative || mark && (bytesOf text)[index]? = some sign) 0 0, []⟩ post := by
  have small := string.small pages
  have most := sign.toNat_lt
  have most' := (memory.bytes (address + 16 + index)).toNat_lt
  simp (disch := omega) only [Code.sign, when_, seq_cons, seq_nil, List.append_nil,
    List.cons_append, List.nil_append, numberFrame, byteAt, textAt,
    runs_localGet, UInt32.reduceToNat, List.getElem?_cons_succ, List.getElem?_cons_zero,
    Option.elim_some, runs_i32LtS, runs_i32WrapI64, runs_i32Const, TEXT_eq, runs_i32Add,
    runs_i32Load8U, Nat.add_zero, inside, if_true, runs_i32Eq, runs_i32And_boolean, runs_if]
  have same : (index < (bytesOf text).length ∧
      (memory.bytes (address + 16 + index)).toNat = sign.toNat) ↔
        (bytesOf text)[index]? = some sign := by
    rw [UInt8.toNat_inj, List.getElem?_eq_some_iff]
    constructor
    · rintro ⟨below, byte⟩
      exact ⟨below, (string.bytes index below).symm.trans byte⟩
    · rintro ⟨below, byte⟩
      exact ⟨below, (string.bytes index below).trans byte⟩
  simp only [same, past]
  by_cases taken : (bytesOf text)[index]? = some sign
  · simp only [taken, if_true, decide_true, Bool.and_true]
    cases mark with
    | true =>
        simp [increment]
    | false =>
        simp [increment]
  · simp only [taken, if_false, decide_false, Bool.and_false, Bool.or_false]
    rw [runs_nil, leave_normal, then_normal]

/-- One digit is taken into the number, or the text is refused. -/
theorem runs_digit {index byte : Nat} {negative : Bool} {number : Int}
    (ready : Ready engine at_ memory top address text)
    (below : index < (bytesOf text).length) (low : -2 ^ 63 ≤ number) (high : number ≤ 0)
    (refused : oneDigit number (bytesOf text)[index] = none → ∀ outcome,
      Answered (AnswersResult engine top (refusalRoom text)
        (.result false (.str (sentence text)))) (Full engine top (refusalRoom text)) outcome →
        post outcome)
    (goes : ∀ next, oneDigit number (bytesOf text)[index] = some next →
      Runs engine rest ⟨memory, numberFrame address (bytesOf text).length index negative next
        (bytesOf text)[index].toNat, stack⟩ post) :
    Runs engine (Code.digit at_ ++ rest)
      ⟨memory, numberFrame address (bytesOf text).length index negative number byte, stack⟩
      post := by
  have string := ready.text.string
  have pages := ready.heap.pages
  have small := (bytesOf text)[index].toNat_lt
  have fits : Fits64 number := by constructor <;> omega
  rw [Code.digit, numberFrame, seq_cons, List.append_assoc,
    runs_byteAt string pages rfl rfl below]
  rw [oneDigit] at refused
  generalize (bytesOf text)[index] = digit at *
  simp (disch := omega) only [when_, seq_cons, seq_nil, List.append_nil,
    List.cons_append, List.nil_append, runs_localSet,
    UInt32.reduceToNat, List.length_cons, List.length_nil, Nat.reduceAdd, Nat.reduceLT,
    if_true, List.set_cons_succ, List.set_cons_zero, runs_localGet,
    List.getElem?_cons_succ, List.getElem?_cons_zero, Option.elim_some,
    runs_i32Const_literal, runs_i32LtS, runs_i32GtS, runs_i32Or_boolean]
  refine runs_answerIf (fun _ => runs_refuse ready rfl (Nat.lt_of_sub_eq_succ rfl))
    (fun other => refused (if_pos other)) fun one => ?_
  rw [if_neg one] at refused
  have least : Fits64 (-922337203685477580) := by constructor <;> decide
  have lowest : Fits64 (-9223372036854775808 + ((digit.toNat - 48 : Nat) : Int)) := by
    constructor <;> omega
  simp (disch := first | assumption | omega) only [runs_localGet, UInt32.reduceToNat,
    List.getElem?_cons_succ, List.getElem?_cons_zero, Option.elim_some,
    runs_i64Const_negative, runs_i64LtS]
  refine runs_answerIf (fun _ => runs_refuse ready rfl (Nat.lt_of_sub_eq_succ rfl))
    (fun deep => refused (if_pos deep)) fun room => ?_
  rw [if_neg room] at refused
  have tenfold : Fits64 (number * 10) := by constructor <;> omega
  simp (disch := first | assumption | omega) only [runs_localGet, runs_localSet,
    UInt32.reduceToNat, List.getElem?_cons_succ, List.getElem?_cons_zero, Option.elim_some,
    List.length_cons, List.length_nil, Nat.reduceAdd, Nat.reduceLT, if_true,
    List.set_cons_succ, List.set_cons_zero, runs_i64Const_negative, runs_i64Const_literal,
    runs_i64Mul, runs_i32Const_literal, runs_i32Sub, runs_i64ExtendI32S, runs_i64Add,
    runs_i64LtS]
  refine runs_answerIf (fun _ => runs_refuse ready rfl (Nat.lt_of_sub_eq_succ rfl))
    (fun tight => refused (if_pos tight)) fun enough => ?_
  simp (disch := first | assumption | omega) only [runs_localGet, runs_localSet,
    UInt32.reduceToNat, List.getElem?_cons_succ, List.getElem?_cons_zero, Option.elim_some,
    List.length_cons, List.length_nil, Nat.reduceAdd, Nat.reduceLT, if_true,
    List.set_cons_succ, List.set_cons_zero, runs_i32Const_literal, runs_i32Sub,
    runs_i64ExtendI32S, runs_i64Sub]
  apply goes
  rw [oneDigit, if_neg one, if_neg room, if_neg enough]

/-! ## The whole reading -/

/-- What a number read, or none, is answered with. -/
def answerOf (text : String) : Option Int → Eval.Value
  | some number => .result true (numberValue number)
  | none => .result false (.str (sentence text))

/-- How many bytes the answer takes. -/
def roomOf (text : String) : Option Int → Nat
  | some _ => 16
  | none => refusalRoom text

/-- The reading ends with the answer in a block of its own, or there is no room for it. -/
def Reads (engine : Engine) (top : Nat) (text : String) (number : Option Int) :
    Outcome → Prop :=
  Answered (AnswersResult engine top (roomOf text number) (answerOf text number))
    (Full engine top (roomOf text number))

/-- What the code after the digits does: the number is turned round unless a minus was
seen. -/
def turnCode (at_ : Where Helper) : List Ins :=
  .localGet 3 :: .i32Eqz :: .localGet 4 :: .i64Const (-9223372036854775808) :: .i64Eq ::
    .i32And :: .if_ none (Code.refuse at_) [] :: .localGet 3 :: .i32Eqz ::
      .if_ none [.i64Const 0, .localGet 4, .i64Sub, .localSet 4] [] ::
        result 6 OK [.localGet 4]

theorem textNumber_body (at_ : Where Helper) : (Code.textNumber at_).2 =
    byteLength 0 ++ (.localSet 1 :: .i32Const 0 :: .localSet 2 :: .i32Const 0 ::
      .localSet 3 :: .i64Const 0 :: .localSet 4 ::
        (Code.sign (.ofNat (45 : UInt8).toNat) true ++
          (Code.sign (.ofNat (43 : UInt8).toNat) false ++
            (.localGet 2 :: .localGet 1 :: .i32GeS :: .if_ none (Code.refuse at_) [] ::
              (walkWhile 2 [.localGet 2, .localGet 1, .i32LtS] (Code.digit at_) ++
                turnCode at_))))) := rfl

/-- A number in range is answered as it is. -/
theorem runs_found {index byte : Nat} {negative : Bool} {number : Int}
    (heap : Heap engine memory top) (fits : Fits64 number) :
    Runs engine (result 6 OK [.localGet 4])
      ⟨memory, numberFrame address (bytesOf text).length index negative number byte, []⟩
      (Reads engine top text (some number)) := by
  have small := heap.small
  have inside := heap.inside
  apply (runs_result heap (Nat.lt_of_sub_eq_succ rfl) fits ?_).mono
  · intro outcome
    apply Answered.mono
    · rintro after value ⟨rfl, held, -, room⟩
      refine ⟨top, by omega, rfl, ?_, room⟩
      show ResultAt after top 0 (Int64.ofInt number).toInt
      rw [toInt_ofInt64 fits]
      exact held
    · exact fun trap full => full
  · intro after _ rest stack post
    rw [List.singleton_append, runs_localGet]
    rfl

theorem runs_turned {index byte : Nat} {negative : Bool} {number : Int}
    (ready : Ready engine at_ memory top address text)
    (low : -2 ^ 63 ≤ number) (high : number ≤ 0) :
    Runs engine (turnCode at_)
      ⟨memory, numberFrame address (bytesOf text).length index negative number byte, []⟩
      (Reads engine top text
        (if negative = true then some number else if number = -2 ^ 63 then none
          else some (-number))) := by
  have fits : Fits64 number := by constructor <;> omega
  have lowest : Fits64 (-9223372036854775808) := by constructor <;> decide
  have small : negative.toNat < 2 ^ 32 := (Bool.toNat_lt negative).trans (by decide)
  rw [turnCode, numberFrame]
  simp (disch := first | assumption | omega) only [runs_localGet, UInt32.reduceToNat,
    List.getElem?_cons_succ, List.getElem?_cons_zero, Option.elim_some,
    runs_i64Const_negative, runs_i32Eqz, runs_i64Eq, runs_i32And_boolean]
  refine runs_answerIf (fun _ => runs_refuse ready rfl (Nat.lt_of_sub_eq_succ rfl))
    (fun edge outcome answered => ?_) fun inside => ?_
  · have positive : ¬negative = true := by
      rintro rfl
      exact absurd edge.1 (by decide)
    have lowest' : number = -2 ^ 63 := edge.2
    rw [if_neg positive, if_pos lowest']
    exact answered
  · simp (disch := first | assumption | omega) only [runs_localGet, UInt32.reduceToNat,
      List.getElem?_cons_succ, List.getElem?_cons_zero, Option.elim_some, runs_i32Eqz,
      runs_if]
    cases negative with
    | true =>
        rw [if_neg (by decide), if_pos rfl, runs_nil, leave_normal, then_normal]
        exact runs_found ready.heap fits
    | false =>
        have turns : number ≠ -2 ^ 63 := fun edge => inside ⟨rfl, edge⟩
        have fits' : Fits64 (-number) := by constructor <;> omega
        rw [if_pos Bool.toNat_false, if_neg Bool.false_ne_true, if_neg turns]
        simp only [runs_i64Const_literal, runs_localGet, UInt32.reduceToNat,
          List.getElem?_cons_succ, List.getElem?_cons_zero, Option.elim_some, runs_i64Sub,
          runs_localSet, List.length_cons, List.length_nil, Nat.reduceAdd, Nat.reduceLT,
          if_true, List.set_cons_succ, List.set_cons_zero, runs_nil, leave_normal,
          then_normal, zero_sub]
        exact runs_found ready.heap fits'

/-- What has answered leaves a loop as it is. -/
theorem Answered.looped {answers : Memory → Value → Prop} {stops : Trap → Prop}
    {round : Memory → List Value → Prop} {outcome : Outcome}
    (answered : Answered answers stops outcome) :
    outcome.Looped engine stack rest (Answered answers stops) round := by
  cases outcome with
  | returned machine => exact answered
  | trapped trap => exact answered
  | normal machine => exact answered.elim
  | branch depth machine => exact answered.elim

/-- A digit more keeps the number below zero and in range. -/
theorem oneDigit_range {number next : Int} {byte : UInt8} (high : number ≤ 0)
    (taken : oneDigit number byte = some next) : -2 ^ 63 ≤ next ∧ next ≤ 0 := by
  rw [oneDigit] at taken
  split at taken
  · exact absurd taken (by simp)
  · split at taken
    · exact absurd taken (by simp)
    · split at taken
      · exact absurd taken (by simp)
      · next enough =>
          have same := Option.some_inj.1 taken
          omega

/-- The loop takes the digits from where it stands, and the number is turned. -/
theorem runs_digits {index : Nat} {negative : Bool}
    (ready : Ready engine at_ memory top address text) (early : index ≤ (bytesOf text).length) :
    Runs engine (walkWhile 2 [.localGet 2, .localGet 1, .i32LtS] (Code.digit at_) ++ turnCode at_)
      ⟨memory, numberFrame address (bytesOf text).length index negative 0 0, []⟩
      (Reads engine top text
        ((takeDigits ((bytesOf text).drop index) 0).bind fun number =>
          if negative = true then some number else if number = -2 ^ 63 then none
            else some (-number))) := by
  have small := ready.text.string.small ready.heap.pages
  refine runs_walkWhile (fun left now held => ∃ (at_ : Nat) (number : Int) (byte : Nat),
      at_ + left = (bytesOf text).length ∧ now = memory ∧
        held = numberFrame address (bytesOf text).length at_ negative number byte ∧
          -2 ^ 63 ≤ number ∧ number ≤ 0 ∧
            takeDigits ((bytesOf text).drop at_) number =
              takeDigits ((bytesOf text).drop index) 0)
    ⟨index, 0, 0, Nat.add_sub_cancel' early, rfl, rfl, by decide, le_refl 0, rfl⟩ ?_
  rintro left now held ⟨at', number, byte, whole, rfl, rfl, low, high, same⟩
  rw [← same]
  simp (disch := omega) only [numberFrame, List.cons_append, List.nil_append, runs_localGet,
    UInt32.reduceToNat, List.getElem?_cons_succ, List.getElem?_cons_zero, Option.elim_some,
    runs_i32LtS, runs_i32Eqz_boolean, runs_brIf]
  by_cases below : at' < (bytesOf text).length
  · rw [if_neg (not_not.2 below)]
    have whole' : takeDigits ((bytesOf text).drop at') number =
        (oneDigit number (bytesOf text)[at']).bind
          (takeDigits ((bytesOf text).drop (at' + 1))) := by
      rw [List.drop_eq_getElem_cons below, takeDigits, List.foldlM_cons]
      rfl
    refine runs_digit ready below low high ?_ ?_
    · intro none_ outcome answered
      rw [whole', none_]
      exact answered.looped
    · intro next some_
      have range := oneDigit_range high some_
      rw [whole', some_, Option.bind_some, runs_nextTurn rfl]
      exact ⟨left - 1, by omega, at' + 1, next, _, by omega, rfl, rfl, range.1, range.2, rfl⟩
  · rw [if_pos below, List.drop_eq_nil_of_le (Nat.le_of_not_lt below)]
    exact runs_turned ready low high

/-- The reading ends with what the compiled code makes of the bytes. -/
theorem textNumber_reads (ready : Ready engine at_ memory top address text)
    (inside : ¬(text = "" ∧ address + 16 = memory.size)) :
    Answers engine at_ .textNumber memory [word64 address]
      (AnswersResult engine top (roomOf text (compiledNumber (bytesOf text)))
        (answerOf text (compiledNumber (bytesOf text))))
      (Full engine top (roomOf text (compiledNumber (bytesOf text)))) := by
  have string := ready.text.string
  have pages := ready.heap.pages
  have small := string.small pages
  show Runs engine (Code.textNumber at_).2 ⟨memory, [word64 address, word32 0, word32 0,
    word32 0, word64 0, word32 0, word32 0, word64 0], []⟩ (Reads engine top text _)
  rw [textNumber_body, runs_byteLength string pages rfl]
  simp only [runs_localSet, UInt32.reduceToNat, List.length_cons, List.length_nil,
    Nat.reduceAdd, Nat.reduceLT, if_true, List.set_cons_succ, List.set_cons_zero,
    runs_i32Const_literal, runs_i64Const_literal]
  have whole := string.inside
  have second := past_inside string inside 45
  have first : address + 16 + 0 < memory.size := by omega
  have early := past_le 45 (Nat.zero_le (bytesOf text).length)
  have early' := past_le 43 early
  show Runs engine _ ⟨memory, numberFrame address (bytesOf text).length 0 false 0 0, []⟩ _
  rw [runs_sign string pages first (Nat.zero_le _), runs_sign string pages second early]
  have digits : (bytesOf text).drop (past 43 (bytesOf text) (past 45 (bytesOf text) 0)) =
      afterSign 43 (afterSign 45 (bytesOf text)) := by
    rw [drop_past, drop_past, List.drop_zero]
  have none_ : afterSign 43 (afterSign 45 (bytesOf text)) = [] ↔
      (bytesOf text).length ≤ past 43 (bytesOf text) (past 45 (bytesOf text) 0) := by
    rw [← digits, List.drop_eq_nil_iff]
  have known : compiledNumber (bytesOf text) =
      if (bytesOf text).length ≤ past 43 (bytesOf text) (past 45 (bytesOf text) 0) then none
      else (takeDigits ((bytesOf text).drop
          (past 43 (bytesOf text) (past 45 (bytesOf text) 0))) 0).bind fun number =>
        if decide ((bytesOf text)[0]? = some 45) = true then some number
        else if number = -2 ^ 63 then none else some (-number) := by
    simp only [compiledNumber, none_, digits, decide_eq_true_eq, List.head?_eq_getElem?]
  have mark : (false || true && decide ((bytesOf text)[0]? = some 45) ||
      false && decide ((bytesOf text)[past 45 (bytesOf text) 0]? = some 43)) =
        decide ((bytesOf text)[0]? = some 45) := by
    rw [Bool.false_or, Bool.true_and, Bool.false_and, Bool.or_false]
  rw [known, mark]
  generalize past 43 (bytesOf text) (past 45 (bytesOf text) 0) = index at early'
  simp (disch := omega) only [numberFrame, runs_localGet, UInt32.reduceToNat,
    List.getElem?_cons_succ, List.getElem?_cons_zero, Option.elim_some, runs_i32GeS]
  refine runs_answerIf (fun _ => runs_refuse ready rfl (Nat.lt_of_sub_eq_succ rfl))
    (fun empty outcome answered => ?_) fun some_ => ?_
  · rw [if_pos empty]
    exact answered
  · rw [if_neg some_]
    exact runs_digits ready early'

/-- An empty text that ends with the memory is looked at one byte too far. -/
theorem textNumber_edge (string : StringAt memory address "")
    (pages : memory.pages ≤ engine.ceiling) (edge : address + 16 = memory.size) :
    Runs engine (Code.textNumber at_).2 ⟨memory, [word64 address, word32 0, word32 0,
      word32 0, word64 0, word32 0, word32 0, word64 0], []⟩
      fun outcome => outcome = .trapped .outOfBounds := by
  have small := string.small pages
  have outside : ¬address + 16 < memory.size := by omega
  rw [textNumber_body, runs_byteLength string pages rfl]
  simp (disch := omega) only [runs_localSet, UInt32.reduceToNat, List.length_cons,
    List.length_nil, Nat.reduceAdd, Nat.reduceLT, if_true, List.set_cons_succ,
    List.set_cons_zero, runs_i32Const_literal, runs_i64Const_literal, Code.sign, when_,
    seq_cons, seq_nil, List.append_nil, List.cons_append, List.nil_append, byteAt, textAt,
    runs_localGet, List.getElem?_cons_succ, List.getElem?_cons_zero, Option.elim_some,
    runs_i32LtS, runs_i32WrapI64, runs_i32Const, TEXT_eq, runs_i32Add, runs_i32Load8U,
    Nat.add_zero, outside, if_false]

/-! ## The two engines -/

/-- How many bytes the answer takes that the interpreter gives. -/
def answerRoom (text : String) : Nat :=
  if (Eval.parseInt text).isSome = true then 16 else refusalRoom text

/-- The helper ends with the `Result` in memory that the interpreter's `to_int` answers. -/
def AnswersAlike (engine : Engine) (at_ : Where Helper) (memory : Memory) (address : Nat)
    (text : String) : Prop :=
  Answers engine at_ .textNumber memory [word64 address]
    (fun after value => ∃ (block : Nat) (answer : Eval.Value), block < 2 ^ 32 ∧
      Eval.builtin "to_int" [.str text] = some answer ∧ value = word64 block ∧
        HoldsResult after block answer)
    fun _ => False

theorem builtin_toInt {number : Option Int}
    (same : number.map numberValue = Eval.parseInt text) :
    Eval.builtin "to_int" [.str text] = some (answerOf text number) := by
  cases number with
  | none =>
      have none_ : Eval.parseInt text = none := same.symm
      simp only [Eval.builtin, List.head?_cons, none_]
      rfl
  | some number =>
      have some_ : Eval.parseInt text = some (numberValue number) := same.symm
      simp only [Eval.builtin, List.head?_cons, some_]
      rfl

theorem answerRoom_eq {number : Option Int}
    (same : number.map numberValue = Eval.parseInt text) :
    answerRoom text = roomOf text number := by
  rw [answerRoom, ← same]
  cases number with
  | none => rfl
  | some number => rfl

theorem word64_inj {block other : Nat} (small : block < 2 ^ 32) (small' : other < 2 ^ 32)
    (same : word64 block = word64 other) : block = other := by
  have wide : Fits64 block := by constructor <;> omega
  have wide' : Fits64 other := by constructor <;> omega
  have alike := (ofInt_inj64 wide wide').1 (Value.i64.inj same)
  omega

/-- A block holds one result. -/
theorem holdsResult_ok {block : Nat} {number : Int}
    (held : HoldsResult memory block (answerOf text (some number)))
    (refused : HoldsResult memory block (answerOf text none)) : False := by
  obtain ⟨place, tagged, -⟩ := refused
  have tags := held.tag.symm.trans tagged.tag
  exact absurd (Option.some_inj.1 tags) (by decide)

/-- What two answers of one outcome have in common: the block, and that there was room. -/
theorem answered_both {room : Nat} {answer : Eval.Value} {stops : Trap → Prop}
    {answers : Memory → Nat → Prop} {outcome : Outcome}
    (answered : Answered (AnswersResult engine top room answer) stops outcome)
    (again : Answered (fun after value => ∃ block : Nat, block < 2 ^ 32 ∧
      value = word64 block ∧ answers after block) (fun _ => False) outcome) :
    top + room ≤ engine.ceiling * page ∧ ∃ (after : Memory) (block : Nat),
      HoldsResult after block answer ∧ answers after block := by
  cases outcome with
  | returned machine =>
      obtain ⟨value, left, same, block, small, rfl, held, fits⟩ := answered
      obtain ⟨value', left', same', block', small', rfl, held'⟩ := again
      have one := (List.cons.inj (same.symm.trans same')).1
      have alike := word64_inj small small' one
      subst alike
      exact ⟨fits, machine.memory, block, held, held'⟩
  | trapped trap => exact again.elim
  | normal machine => exact again.elim
  | branch depth machine => exact again.elim

section Alike

variable (ready : Ready engine at_ memory top address text)

include ready

theorem AnswersAlike.inside (alike : AnswersAlike engine at_ memory address text) :
    ¬(text = "" ∧ address + 16 = memory.size) := by
  rintro ⟨rfl, edge⟩
  obtain ⟨outcome, rfl, answered⟩ :=
    (textNumber_edge ready.text.string ready.heap.pages edge).unique alike
  exact answered

/-- Where both answer alike, the text is not signed twice and there was room. -/
theorem AnswersAlike.once (alike : AnswersAlike engine at_ memory address text) :
    ¬SignedTwice text ∧ top + answerRoom text ≤ engine.ceiling * page := by
  obtain ⟨outcome, reads, answered⟩ :=
    (textNumber_reads ready (alike.inside ready)).unique alike
  have answered' : Answered (fun after value => ∃ block : Nat, block < 2 ^ 32 ∧
      value = word64 block ∧ ∃ answer, Eval.builtin "to_int" [.str text] = some answer ∧
        HoldsResult after block answer) (fun _ => False) outcome := by
    apply answered.mono
    · rintro after value ⟨block, answer, small, same, place, held⟩
      exact ⟨block, small, place, answer, same, held⟩
    · exact fun trap stops => stops
  obtain ⟨room, after, block, held, answer, same, held'⟩ := answered_both reads answered'
  have once : ¬SignedTwice text := by
    intro twice
    obtain ⟨⟨number, some_⟩, none_⟩ := compiledNumber_twice twice
    have refused : Eval.builtin "to_int" [.str text] = some (answerOf text none) :=
      builtin_toInt none_.symm
    rw [some_] at held
    rw [← Option.some_inj.1 (refused.symm.trans same)] at held'
    exact holdsResult_ok held held'
  refine ⟨once, ?_⟩
  rw [answerRoom_eq (compiledNumber_once once)]
  exact room

end Alike

/-- The compiled reading answers what the interpreter answers exactly when the text is not
signed twice, is not empty at the very end of the memory, and there is room for the
answer. -/
theorem textNumber_alike (ready : Ready engine at_ memory top address text) :
    AnswersAlike engine at_ memory address text ↔
      ¬SignedTwice text ∧ ¬(text = "" ∧ address + 16 = memory.size) ∧
        top + answerRoom text ≤ engine.ceiling * page := by
  constructor
  · intro alike
    have once := alike.once ready
    exact ⟨once.1, alike.inside ready, once.2⟩
  · rintro ⟨once, inside, room⟩
    have same := compiledNumber_once once
    have reads := textNumber_reads ready inside
    rw [answerRoom_eq same] at room
    apply Runs.mono reads
    intro outcome
    apply Answered.mono
    · rintro after value ⟨block, small, rfl, held, -⟩
      exact ⟨block, _, small, builtin_toInt same, rfl, held⟩
    · rintro trap ⟨-, past⟩
      omega

/-! ## One memory -/

/-- The bytes of a string with its headers, padded to a word. -/
def stringImage (text : String) : List UInt8 :=
  (List.range 8).map (byteOf text.length) ++ (List.range 8).map (byteOf (bytesOf text).length) ++
    bytesOf text ++
      List.replicate (stringSize (bytesOf text).length - 16 - (bytesOf text).length) 0

/-- What stands where the heap starts: both parts of the sentence, and a text. -/
def readingImage (text : String) : List UInt8 :=
  stringImage "`" ++ stringImage "` is not a number" ++ stringImage text

/-- The byte at an address of a page with three strings where the heap starts. -/
def readingByte (text : String) (address : Nat) : UInt8 :=
  if address < 8 then byteOf (HEAP_START + (readingImage text).length) address
  else (readingImage text).getD (address - HEAP_START) 0

theorem readingByte_above {text : String} {address : Nat}
    (above : HEAP_START + (readingImage text).length ≤ address) :
    readingByte text address = 0 := by
  rw [HEAP_START] at above
  rw [readingByte, if_neg (by omega), List.getD_eq_getElem?_getD, List.getElem?_eq_none]
  · rfl
  · rw [HEAP_START]
    omega

theorem readingByte_blank {text : String} (short : (readingImage text).length ≤ 56000)
    (address : Nat) (above : 1 * page ≤ address) : readingByte text address = 0 := by
  apply readingByte_above
  rw [page] at above
  rw [HEAP_START]
  omega

/-- A page with three strings where the heap starts, which ends right above them. -/
def readingMemory (text : String) (short : (readingImage text).length ≤ 56000) : Memory where
  bytes := readingByte text
  pages := 1
  blank := readingByte_blank short

def readingWhere : Where Helper where
  index := fun _ => 0
  place := fun literal => if literal = "`" then 8232 else 8256

theorem one_page_narrow : 1 ≤ 16384 := by decide

def readingEngine : Engine where
  module := { types := [⟨[.i64, .i64], [.i64]⟩], imports := [],
              funcs := [⟨0, Code.strConcat.1, Code.strConcat.2⟩], exports := [],
              memoryPages := some 1, exportedMemory := none, data := [], table := [],
              names := [] }
  ceiling := 1
  small := one_page_narrow

theorem stands_iff : Stands memory top address text ↔
    memory.read address = some (text.length : Int) ∧
      memory.read (address + 8) = some ((bytesOf text).length : Int) ∧
        address + stringSize (bytesOf text).length ≤ memory.size ∧
          (∀ index (below : index < (bytesOf text).length),
            memory.bytes (address + 16 + index) = (bytesOf text)[index]) ∧
            8 ≤ address ∧ address + stringSize (bytesOf text).length ≤ top := by
  constructor
  · rintro ⟨⟨characters, count, inside, bytes, reserved⟩, below⟩
    exact ⟨characters, count, inside, bytes, reserved, below⟩
  · rintro ⟨characters, count, inside, bytes, reserved, below⟩
    exact ⟨⟨characters, count, inside, bytes, reserved⟩, below⟩

instance : Decidable (Stands memory top address text) := decidable_of_iff' _ stands_iff

theorem reading_heap (short : (readingImage text).length ≤ 56000)
    (bump : (readingMemory text short).read BUMP =
      some ((HEAP_START + (readingImage text).length : Nat) : Int)) :
    Heap readingEngine (readingMemory text short) (HEAP_START + (readingImage text).length) where
  bump := bump
  start := Nat.le_add_right _ _
  inside := by
    show _ ≤ 1 * page
    rw [HEAP_START, page]
    omega
  pages := Nat.le_refl 1
  blank := fun _ above => readingByte_above above

set_option maxRecDepth 100000 in
theorem ready_seven : Ready readingEngine readingWhere (readingMemory "7" (by decide)) 8320 8296
    "7" where
  heap := reading_heap (by decide) (by decide)
  text := by decide
  quote := by decide
  tail := by decide
  linked := ⟨0, rfl⟩

set_option maxRecDepth 100000 in
theorem ready_twice : Ready readingEngine readingWhere (readingMemory "-+5" (by decide)) 8320
    8296 "-+5" where
  heap := reading_heap (by decide) (by decide)
  text := by decide
  quote := by decide
  tail := by decide
  linked := ⟨0, rfl⟩

set_option maxRecDepth 100000 in
theorem textNumber_alike_seven :
    Ready readingEngine readingWhere (readingMemory "7" (by decide)) 8320 8296 "7" ∧
      AnswersAlike readingEngine readingWhere (readingMemory "7" (by decide)) 8296 "7" := by
  refine ⟨ready_seven, (textNumber_alike ready_seven).2 ⟨?_, ?_, ?_⟩⟩
  · rintro ⟨digits, same, -⟩
    have first : "7".toList.head? = some '-' := by
      rw [same, (signed_parts digits).1]
      rfl
    exact absurd first (by decide)
  · exact fun edge => absurd edge.1 (by decide)
  · decide

set_option maxRecDepth 100000 in
/-- A text signed twice is read as a number by the compiled code, and refused by the
interpreter. -/
theorem textNumber_signed_twice :
    Ready readingEngine readingWhere (readingMemory "-+5" (by decide)) 8320 8296 "-+5" ∧
      8320 + answerRoom "-+5" ≤ readingEngine.ceiling * page ∧
        ¬AnswersAlike readingEngine readingWhere (readingMemory "-+5" (by decide)) 8296 "-+5" :=
  ⟨ready_twice, by decide, fun alike =>
    (alike.once ready_twice).1 ⟨"5", by decide, by decide⟩⟩

end Deed.Runtime
