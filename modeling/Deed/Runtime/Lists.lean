import Deed.Runtime.Filling

/-!
# Elements, longer lists and copies

`list_element`, `list_extended` and `list_filled` answer what `at`, `push` and `repeat`
answer, for as long as a count fits the `i32` that it is narrowed to.
-/

namespace Deed.Runtime

open Deed.Wasm

variable {engine : Engine} {rest : List Ins} {post : Outcome → Prop}
  {memory after now : Memory} {locals stack : List Value} {top address room : Nat}
  {at_ : Where Helper} {words : List Int} {elements : List Eval.Value} {word : Int}
  {value : Eval.Value} {index count : Int64}
  {meaning : Memory → Int → Eval.Value → Prop}

/-! ## Lists of values -/

/-- What the helpers rest on: a list below the end of the heap, where `meaning` says which
value a word stands for and goes on saying it, the parts of the sentence, and the helpers
that put it together. -/
structure ListReady (engine : Engine) (at_ : Where Helper) (memory : Memory)
    (top address : Nat) (meaning : Memory → Int → Eval.Value → Prop) (words : List Int)
    (elements : List Eval.Value) : Prop where
  heap : Heap engine memory top
  list : ListAt memory address words
  below : address + listSize words.length ≤ top
  means : List.Forall₂ (meaning memory) words elements
  steady : ∀ (after : Memory) (word : Int) (value : Eval.Value), Kept memory after top →
    meaning memory word value → meaning after word value
  opening : Stands memory top (at_.place "index ").toNat "index "
  middle : Stands memory top (at_.place " is outside a list of ").toNat
    " is outside a list of "
  joins : Linked engine at_ .joinedText
  numbers : Linked engine at_ .numberText

/-- The block at an address holds the `Result` of an element or of a sentence. -/
def HoldsElement (meaning : Memory → Int → Eval.Value → Prop) (memory : Memory)
    (block : Nat) : Eval.Value → Prop
  | .result true value => ∃ word, ResultAt memory block 0 word ∧ meaning memory word value
  | .result false (.str text) =>
      ∃ sentence : Nat, ResultAt memory block 1 sentence ∧ StringAt memory sentence text
  | _ => False

/-- The block at an address holds a list of values. -/
def HoldsList (meaning : Memory → Int → Eval.Value → Prop) (memory : Memory)
    (block : Nat) : Eval.Value → Prop
  | .list elements => ∃ words, ListAt memory block words ∧
      List.Forall₂ (meaning memory) words elements
  | _ => False

/-- A helper ends with what the interpreter answers in a block, or the memory has run
out. -/
def Alike (engine : Engine) (at_ : Where Helper) (helper : Helper) (memory : Memory)
    (arguments : List Value) (holds : Memory → Nat → Eval.Value → Prop) (name : String)
    (values : List Eval.Value) : Prop :=
  Answers engine at_ helper memory arguments
    (fun after value => ∃ (block : Nat) (answer : Eval.Value), block < 2 ^ 32 ∧
      Eval.builtin name values = some answer ∧ value = word64 block ∧ holds after block answer)
    fun trap => trap = .unreachable

/-- `list_element` answers as `at` does. -/
def ElementAlike (engine : Engine) (at_ : Where Helper) (memory : Memory) (address : Nat)
    (meaning : Memory → Int → Eval.Value → Prop) (elements : List Eval.Value)
    (index : Int64) : Prop :=
  Alike engine at_ .listElement memory [word64 address, word64 index.toInt]
    (HoldsElement meaning) "at" [.list elements, .int index]

/-- `list_extended` answers as `push` does. -/
def ExtendedAlike (engine : Engine) (at_ : Where Helper) (memory : Memory) (address : Nat)
    (meaning : Memory → Int → Eval.Value → Prop) (elements : List Eval.Value) (word : Int)
    (value : Eval.Value) : Prop :=
  Alike engine at_ .listExtended memory [word64 address, word64 word] (HoldsList meaning)
    "push" [.list elements, value]

/-- `list_filled` answers as `repeat` does. -/
def FilledAlike (engine : Engine) (at_ : Where Helper) (memory : Memory)
    (meaning : Memory → Int → Eval.Value → Prop) (word : Int) (value : Eval.Value)
    (count : Int64) : Prop :=
  Alike engine at_ .listFilled memory [word64 word, word64 count.toInt] (HoldsList meaning)
    "repeat" [value, .int count]

/-! ## An element -/

/-- What an index outside a list is answered with. -/
def outsideSentence (index : Int) (length : Nat) : String :=
  "index " ++ toString index ++ " is outside a list of " ++ toString length

theorem builtin_at_inside (low : 0 ≤ index.toInt)
    (high : index.toInt.toNat < elements.length) :
    Eval.builtin "at" [.list elements, .int index] =
      some (.result true elements[index.toInt.toNat]) := by
  have above : 0 ≤ index := Int64.le_iff_toInt_le.2 low
  have found : ((some index).filter fun index => decide (0 ≤ index)).bind (fun index =>
      elements[index.toInt.toNat]?) = some elements[index.toInt.toNat] := by
    rw [Option.filter_some, if_pos (decide_eq_true above), Option.bind_some,
      List.getElem?_eq_getElem high]
  simp only [Eval.builtin, List.head?_cons, List.getElem?_cons_succ, List.getElem?_cons_zero,
    Option.bind_some, Eval.Value.asInt, found]
  rfl

theorem builtin_at_outside
    (outside : index.toInt < 0 ∨ (elements.length : Int) ≤ index.toInt) :
    Eval.builtin "at" [.list elements, .int index] =
      some (.result false (.str (outsideSentence index.toInt elements.length))) := by
  have none_ : ((some index).filter fun index => decide (0 ≤ index)).bind (fun index =>
      elements[index.toInt.toNat]?) = none := by
    by_cases above : 0 ≤ index
    · have low := Int64.le_iff_toInt_le.1 above
      have zero : (0 : Int64).toInt = 0 := rfl
      rw [Option.filter_some, if_pos (decide_eq_true above), Option.bind_some]
      exact List.getElem?_eq_none (by omega)
    · rw [Option.filter_some, if_neg (by rw [decide_eq_true_eq]; exact above), Option.bind_none]
  simp only [Eval.builtin, List.head?_cons, List.getElem?_cons_succ, List.getElem?_cons_zero,
    Option.bind_some, Eval.Value.asInt, none_]
  rfl

/-- The refusal of an index. -/
def refuseIndex (at_ : Where Helper) : List Ins :=
  at_.text "index " :: .localGet 1 :: at_.call .numberText :: at_.call .joinedText ::
    at_.text " is outside a list of " :: at_.call .joinedText :: .localGet 3 ::
      at_.call .numberText :: at_.call .joinedText :: .localSet 5 ::
        result 4 ERR [.localGet 5]

theorem listElement_body : (Code.listElement at_).2 =
    .localGet 0 :: .i32WrapI64 :: .localSet 2 :: .localGet 2 :: .i64Load 0 :: .localSet 3 ::
      .localGet 1 :: .i64Const 0 :: .i64LtS :: .localGet 1 :: .localGet 3 :: .i64GeS ::
        .i32Or :: .if_ none (refuseIndex at_) [] :: .localGet 1 :: .i32WrapI64 ::
          .localSet 6 :: result 4 OK (elementAt 2 6 ++ [.i64Load 0]) := by
  rw [Code.listElement]
  simp only [when_, seq_cons, seq_nil, List.append_nil, List.cons_append, List.nil_append,
    refuseIndex]

theorem fits_toInt (number : Int64) : Fits64 number.toInt :=
  ⟨number.le_toInt, number.toInt_lt⟩

/-- The refusal puts the sentence together and answers with it. -/
theorem runs_refuseIndex
    (ready : ListReady engine at_ memory top address meaning words elements) :
    Runs engine (refuseIndex at_)
      ⟨memory, [word64 address, word64 index.toInt, word32 address, word64 words.length,
        word32 0, word64 0, word32 0], []⟩
      (Answered (fun after answer => ∃ block : Nat, block < 2 ^ 32 ∧ answer = word64 block ∧
        HoldsElement meaning after block
          (.result false (.str (outsideSentence index.toInt words.length))))
        fun trap => trap = .unreachable) := by
  have length : Fits64 (words.length : Int) := fits_of_read ready.list.count
  rw [refuseIndex, Where.text, runs_i64Const]
  simp only [runs_localGet, UInt32.reduceToNat, List.getElem?_cons_succ,
    List.getElem?_cons_zero, Option.elim_some]
  refine runs_numberGrown ready.numbers ready.heap (fits_toInt index) rfl ?_
  intro first reached grown
  refine runs_joinGrown ready.joins grown.heap (ready.opening.kept grown.kept grown.above)
    grown.stands rfl ?_
  intro second reached' grown'
  have kept := grown.kept.trans grown'.kept grown.above
  rw [Where.text, runs_i64Const]
  refine runs_joinGrown ready.joins grown'.heap grown'.stands
    (ready.middle.kept kept (grown.above.trans grown'.above)) rfl ?_
  intro third far grown
  simp only [runs_localGet, UInt32.reduceToNat, List.getElem?_cons_succ,
    List.getElem?_cons_zero, Option.elim_some]
  refine runs_numberGrown ready.numbers grown.heap length rfl ?_
  intro fourth far' grown'
  refine runs_joinGrown ready.joins grown'.heap (grown.stands.kept grown'.kept grown'.above)
    grown'.stands rfl ?_
  intro fifth last whole
  have size := whole.heap.small
  have inside := whole.heap.inside
  have above := whole.above
  simp only [runs_localSet, UInt32.reduceToNat, List.length_cons, List.length_nil,
    Nat.reduceAdd, Nat.reduceLT, if_true, List.set_cons_succ, List.set_cons_zero]
  have place : Fits64 (far' : Int) := by constructor <;> omega
  apply (runs_result whole.heap (Nat.lt_of_sub_eq_succ rfl) place ?_).mono
  · intro outcome
    apply Answered.mono
    · rintro after answer ⟨rfl, held, kept, -⟩
      exact ⟨last, by omega, rfl, far', held, (whole.stands.kept kept (Nat.le_refl _)).string⟩
    · rintro trap ⟨rfl, -⟩
      rfl
  · intro after _ rest stack post
    exact runs_localGet

/-- An element is answered as the interpreter answers it, and so is an index outside. -/
theorem listElement_alike
    (ready : ListReady engine at_ memory top address meaning words elements) :
    ElementAlike engine at_ memory address meaning elements index := by
  have list := ready.list
  have size := ready.heap.small
  have inside := list.inside
  have same := ready.means.length_eq
  have length : Fits64 (words.length : Int) := fits_of_read list.count
  have fits := fits_toInt index
  have zero : Fits64 0 := by constructor <;> decide
  show Runs engine (Code.listElement at_).2 ⟨memory, [word64 address, word64 index.toInt,
    word32 0, word64 0, word32 0, word64 0, word32 0], []⟩ _
  rw [listElement_body]
  simp (disch := first | assumption | omega) only [runs_localGet, runs_localSet,
    UInt32.reduceToNat, List.getElem?_cons_succ, List.getElem?_cons_zero, Option.elim_some,
    runs_i32WrapI64, List.length_cons, List.length_nil, Nat.reduceAdd, Nat.reduceLT, if_true,
    List.set_cons_succ, List.set_cons_zero, runs_i64Load, Nat.add_zero, list.count,
    runs_i64Const_literal, runs_i64LtS, runs_i64GeS, runs_i32Or_boolean]
  refine runs_answerIf (fun _ => runs_refuseIndex ready) ?_ ?_
  · intro outside outcome
    apply Answered.mono
    · rintro after answer ⟨block, small, rfl, held⟩
      rw [same] at outside held
      exact ⟨block, _, small, builtin_at_outside outside, rfl, held⟩
    · exact fun trap full => full
  · intro within
    obtain ⟨place, placed⟩ := Int.eq_ofNat_of_zero_le (a := index.toInt) (by omega)
    have below : place < words.length := by omega
    have below' : place < elements.length := by omega
    have narrow : index.toInt.toNat = place := by omega
    rw [placed]
    simp only [runs_localGet, runs_localSet, UInt32.reduceToNat, List.getElem?_cons_succ,
      List.getElem?_cons_zero, Option.elim_some, runs_i32WrapI64, List.length_cons,
      List.length_nil, Nat.reduceAdd, Nat.reduceLT, if_true, List.set_cons_succ,
      List.set_cons_zero]
    have means := ready.means.get below below'
    apply (runs_result ready.heap (Nat.lt_of_sub_eq_succ rfl)
      (fits_of_read (list.elements place below)) ?_).mono
    · intro outcome
      apply Answered.mono
      · rintro after answer ⟨rfl, held, kept, -⟩
        have found : Eval.builtin "at" [.list elements, .int index] =
            some (.result true elements[index.toInt.toNat]) :=
          builtin_at_inside (by omega) (by omega)
        have start := ready.heap.inside
        refine ⟨top, _, by omega, found, rfl, words[place], held, ?_⟩
        simp only [narrow]
        exact ready.steady _ _ _ kept means
      · rintro trap ⟨rfl, -⟩
        rfl
    · intro after kept rest stack post
      have list' := list.kept kept ready.below
      have room : listSize words.length = 8 + words.length * 8 := rfl
      have element := list'.elements place below
      rw [List.append_assoc, runs_elementAt rfl rfl, List.cons_append, List.nil_append,
        runs_i64Load (by omega)]
      simp only [UInt32.reduceToNat, Nat.add_zero, element, Option.elim_some]

/-! ## One element more -/

theorem listExtended_body : Code.listExtended.2 =
    .localGet 0 :: .i32WrapI64 :: .localSet 2 :: .localGet 2 :: .i64Load 0 :: .i32WrapI64 ::
      .localSet 3 :: .localGet 3 :: .i32Const 1 :: .i32Add :: .localSet 6 ::
        (allocate 4 (listRoom 6) ++ (.localGet 4 :: .localGet 6 :: .i64ExtendI32S ::
          .i64Store 0 ::
            (countTo 5 3 (elementAt 4 5 ++ ((elementAt 2 5 ++ [.i64Load 0]) ++ [.i64Store 0])) ++
              (elementAt 4 3 ++ (.localGet 1 :: .i64Store 0 :: Code.answer 4))))) := rfl

/-- The element goes behind the copies of the others. -/
theorem list_extended {last : Memory}
    (filling : Filling engine memory now top (listSize (words.length + 1)))
    (headed : now.read top = some ((words.length + 1 : Nat) : Int))
    (written : ∀ index (below : index < words.length),
      now.read (top + 8 + index * 8) = some words[index])
    (fits : Fits64 word) (same : last = now.put (top + 8 + words.length * 8) word) :
    ListAt last top (words ++ [word]) ∧ Kept memory last top := by
  have room : listSize (words.length + 1) = 8 + (words.length + 1) * 8 := rfl
  have inside := filling.inside
  have length : (words ++ [word]).length = words.length + 1 := List.length_append
  subst same
  have filling' : Filling engine memory (now.put (top + 8 + words.length * 8) word) top
      (listSize (words ++ [word]).length) := by
    rw [length]
    exact filling.put (by omega) (by omega)
  refine ⟨filling'.list ?_ ?_, filling'.kept⟩
  · rw [length]
    exact Memory.read_put_other (by omega) headed
  · intro index below
    rw [length] at below
    by_cases early : index < words.length
    · rw [List.getElem_append_left early]
      exact Memory.read_put_other (by omega) (written index early)
    · obtain rfl : index = words.length := by omega
      rw [List.getElem_concat_length rfl]
      exact Memory.read_put (by omega) fits

/-- `list_extended` answers the list that `push` answers. -/
theorem listExtended_alike
    (ready : ListReady engine at_ memory top address meaning words elements)
    (stands : meaning memory word value) (fits : Fits64 word) :
    ExtendedAlike engine at_ memory address meaning elements word value := by
  have list := ready.list
  have size := ready.heap.small
  have inside := list.inside
  have end_ := ready.heap.inside
  have room : listSize words.length = 8 + words.length * 8 := rfl
  have room' : listSize (words.length + 1) = 8 + (words.length + 1) * 8 := rfl
  show Runs engine Code.listExtended.2 ⟨memory, [word64 address, word64 word, word32 0,
    word32 0, word32 0, word32 0, word32 0], []⟩ _
  rw [listExtended_body]
  simp (disch := omega) only [runs_localGet, runs_localSet, UInt32.reduceToNat,
    List.getElem?_cons_succ, List.getElem?_cons_zero, Option.elim_some, runs_i32WrapI64,
    List.length_cons, List.length_nil, Nat.reduceAdd, Nat.reduceLT, if_true,
    List.set_cons_succ, List.set_cons_zero, runs_i64Load, Nat.add_zero, list.count,
    runs_i32Const_literal, runs_i32Add]
  refine @runs_allocate engine _ _ memory _ _ top 4 _ (listSize (words.length + 1))
    ready.heap (Nat.lt_of_sub_eq_succ rfl) (by omega) ?_ ?_ ?_
  · intro rest stack post
    exact runs_listRoom rfl (by omega)
  · intro after reserved fits'
    have filling := reserved.filling ready.heap.start
    have within := filling.inside
    have small := filling.heap.small
    simp (disch := omega) only [runs_localGet, UInt32.reduceToNat, List.getElem?_cons_succ,
      List.getElem?_cons_zero, List.set_cons_succ, List.set_cons_zero, Option.elim_some,
      runs_i64ExtendI32S, runs_i64Store, Nat.add_zero, if_pos]
    refine runs_fillWords (filling.put (le_refl top) (by omega))
      (Memory.read_put (by omega) (by constructor <;> omega)) (by omega) list.fits
      (Nat.lt_of_sub_eq_succ rfl) (fun _ => rfl) (fun _ => rfl) ?_ ?_
    · intro count below now kept rest stack post
      have list' := list.kept kept ready.below
      have element := list'.elements count below
      rw [List.append_assoc, runs_elementAt rfl rfl, List.cons_append, List.nil_append,
        runs_i64Load (by omega)]
      simp only [UInt32.reduceToNat, Nat.add_zero, element, Option.elim_some]
    · intro now filling' headed written
      have within' := filling'.inside
      rw [runs_elementAt rfl rfl]
      simp (disch := omega) only [runs_localGet, UInt32.reduceToNat, List.getElem?_cons_succ,
        List.getElem?_cons_zero, List.set_cons_succ, List.set_cons_zero, Option.elim_some,
        runs_i64Store, Nat.add_zero, if_pos]
      refine (runs_answerAt rfl (by omega)).2 ⟨top, _, by omega, rfl, rfl, ?_⟩
      obtain ⟨list', kept⟩ := list_extended filling' headed written fits rfl
      refine ⟨_, list', List.rel_append ?_ ?_⟩
      · exact ready.means.imp fun word value => ready.steady _ word value kept
      · exact .cons (ready.steady _ word value kept stands) .nil
  · exact fun full => rfl

/-! ## Copies of a value -/

/-- A count as the helper narrows it: nothing below zero, and the lowest bits of the rest. -/
def narrowed (count : Int64) : Nat :=
  if count.toInt < 0 then 0 else (count.toInt % 2 ^ 32).toNat

theorem narrowed_lt : narrowed count < 2 ^ 32 := by
  rw [narrowed]
  split <;> omega

/-- A count below the bound of an `i32` is narrowed to itself. -/
theorem narrowed_small (small : count.toInt < 2 ^ 31) : narrowed count = count.toInt.toNat := by
  rw [narrowed]
  split <;> omega

/-- What follows the narrowing. -/
def fillCode : List Ins :=
  allocate 3 (listRoom 2) ++ (.localGet 3 :: .localGet 2 :: .i64ExtendI32S :: .i64Store 0 ::
    (countTo 4 2 (elementAt 3 4 ++ ([.localGet 0] ++ [.i64Store 0])) ++ Code.answer 3))

theorem listFilled_body : Code.listFilled.2 =
    .localGet 1 :: .i32WrapI64 :: .localSet 2 :: .localGet 1 :: .i64Const 0 :: .i64LtS ::
      .if_ none [.i32Const 0, .localSet 2] [] :: fillCode := rfl

/-- The locals of the filling: the value and the count, the count narrowed, and nothing
else yet. -/
def fillFrame (word : Int) (count : Int64) (narrow : Nat) : List Value :=
  [word64 word, word64 count.toInt, word32 narrow, word32 0, word32 0]

theorem runs_narrowed :
    Runs engine Code.listFilled.2 ⟨memory, fillFrame word count 0, []⟩ post ↔
      Runs engine fillCode ⟨memory, fillFrame word count (narrowed count), []⟩ post := by
  have fits := fits_toInt count
  have zero : Fits64 0 := by constructor <;> decide
  rw [listFilled_body, fillFrame]
  simp (disch := assumption) only [runs_localGet, runs_localSet, UInt32.reduceToNat,
    List.getElem?_cons_succ, List.getElem?_cons_zero, Option.elim_some, runs_i32WrapI64_any,
    List.length_cons, List.length_nil, Nat.reduceAdd, Nat.reduceLT, if_true,
    List.set_cons_succ, List.set_cons_zero, runs_i64Const_literal, runs_i64LtS, runs_if]
  rw [narrowed, fillFrame]
  by_cases below : count.toInt < 0
  · rw [if_pos below, if_pos below]
    simp only [runs_i32Const_literal, runs_localSet, UInt32.reduceToNat, List.length_cons,
      List.length_nil, Nat.reduceAdd, Nat.reduceLT, if_true, List.set_cons_succ,
      List.set_cons_zero, runs_nil, leave_normal, then_normal]
  · rw [if_neg below, if_neg below, runs_nil, leave_normal, then_normal]

/-- A narrowed count that is not below zero is filled up, or there is no room for it. -/
theorem fill_answers {narrow : Nat} (heap : Heap engine memory top) (fits : Fits64 word)
    (small : narrow < 2 ^ 31) :
    Runs engine fillCode ⟨memory, fillFrame word count narrow, []⟩
      (Answered (fun after answer => answer = word64 top ∧
          ListAt after top (List.replicate narrow word) ∧ Kept memory after top ∧
            top + listSize narrow ≤ engine.ceiling * page)
        (Full engine top (listSize narrow))) := by
  have size := heap.small
  have inside := heap.inside
  have room : listSize narrow = 8 + narrow * 8 := rfl
  have length : (List.replicate narrow word).length = narrow := List.length_replicate
  rw [fillCode, fillFrame]
  refine @runs_allocate engine _ _ memory _ _ top 3 _ (listSize narrow) heap
    (Nat.lt_of_sub_eq_succ rfl) (by omega) ?_ ?_ ?_
  · intro rest stack post
    exact runs_listRoom rfl small
  · intro after reserved fits'
    have filling := reserved.filling heap.start
    have within := filling.inside
    have small' := filling.heap.small
    simp (disch := omega) only [runs_localGet, UInt32.reduceToNat, List.getElem?_cons_succ,
      List.getElem?_cons_zero, List.set_cons_succ, List.set_cons_zero, Option.elim_some,
      runs_i64ExtendI32S, runs_i64Store, Nat.add_zero, if_pos]
    have same : ∀ other ∈ List.replicate narrow word, Fits64 other := by
      intro other member
      rw [List.eq_of_mem_replicate member]
      exact fits
    refine runs_fillWords (filling.put (le_refl top) (by omega))
      (Memory.read_put (by omega) (by constructor <;> omega)) (by omega) same
      (Nat.lt_of_sub_eq_succ rfl) (fun _ => rfl) (fun _ => by rw [length]; rfl) ?_ ?_
    · intro count below now kept rest stack post
      rw [List.getElem_replicate]
      exact runs_localGet
    · intro now filling' headed written
      refine (runs_answerAt rfl (by omega)).2 ⟨rfl, ?_, filling'.kept, fits'⟩
      rw [← length] at filling' headed
      exact filling'.list headed written
  · exact fun full => ⟨rfl, full⟩

/-- A narrowed count below zero leaves a header below zero, or stores it outside the
memory. -/
theorem fill_astray {narrow : Nat} (heap : Heap engine memory top) (low : 2 ^ 31 ≤ narrow)
    (high : narrow < 2 ^ 32) :
    Runs engine fillCode ⟨memory, fillFrame word count narrow, []⟩
      (Answered (fun after answer => answer = word64 top ∧
          after.read top = some ((narrow : Int) - 2 ^ 32))
        fun trap => trap = .outOfBounds) := by
  have size := heap.small
  have inside := heap.inside
  have start := heap.start
  rw [HEAP_START] at start
  rw [fillCode, fillFrame]
  refine @runs_allocate_back engine _ _ memory _ _ top 3 _ ((2 ^ 32 - narrow) * 8 - 8) heap
    (Nat.lt_of_sub_eq_succ rfl) (by omega) ?_ ?_
  · intro rest stack post
    exact runs_listRoom_high rfl low high
  · simp (disch := first | assumption | omega) only [runs_localGet, UInt32.reduceToNat,
      List.getElem?_cons_succ, List.getElem?_cons_zero, List.set_cons_succ,
      List.set_cons_zero, Option.elim_some, runs_i64ExtendI32S_high, runs_i64Store,
      Nat.add_zero, Memory.size_put]
    split
    · next within =>
        generalize headed : (memory.put BUMP _).put top _ = now
        have header : now.read top = some ((narrow : Int) - 2 ^ 32) := by
          rw [← headed]
          exact Memory.read_put (by rw [Memory.size_put]; omega) (by constructor <;> omega)
        rw [countTo, List.cons_append, List.cons_append, List.singleton_append]
        simp only [runs_i32Const_literal, runs_localSet, UInt32.reduceToNat, List.length_cons,
          List.length_nil, Nat.reduceAdd, Nat.reduceLT, if_true, List.set_cons_succ,
          List.set_cons_zero]
        refine runs_block_loop (fun left after held => left = 0 ∧ after = now ∧
          held = [word64 word, word64 count.toInt, word32 narrow, word32 top, word32 0])
          ⟨rfl, rfl, rfl⟩ ?_
        rintro left after held ⟨-, rfl, rfl⟩
        simp (disch := assumption) only [seq_cons, seq_nil, List.cons_append, runs_localGet,
          UInt32.reduceToNat, List.getElem?_cons_succ, List.getElem?_cons_zero,
          Option.elim_some, runs_i32GeS_high, runs_brIf, if_true, looped_left]
        exact (runs_answerAt rfl (by omega)).2 ⟨rfl, header⟩
    · exact rfl

theorem builtin_repeat : Eval.builtin "repeat" [value, .int count] =
    some (.list (List.replicate count.toInt.toNat value)) := rfl

theorem forall₂_replicate {relation : Int → Eval.Value → Prop} (holds : relation word value)
    {copies : Nat} :
    List.Forall₂ relation (List.replicate copies word) (List.replicate copies value) := by
  induction copies with
  | zero => exact .nil
  | succ copies ih => exact .cons holds ih

/-- What two answers of one outcome have in common: the block of the one is where the other
answers, or both are the same trap. -/
theorem answered_block {answers : Memory → Prop} {holds : Memory → Nat → Prop}
    {stops stops' : Trap → Prop} {outcome : Outcome} (small : top < 2 ^ 32)
    (answered : Answered (fun after answer => answer = word64 top ∧ answers after) stops
      outcome)
    (again : Answered (fun after answer => ∃ block : Nat, block < 2 ^ 32 ∧
      answer = word64 block ∧ holds after block) stops' outcome) :
    (∃ after, answers after ∧ holds after top) ∨ ∃ trap, stops trap ∧ stops' trap := by
  cases outcome with
  | returned machine =>
      obtain ⟨value, left, same, rfl, held⟩ := answered
      obtain ⟨value', left', same', block, small', rfl, held'⟩ := again
      have one := (List.cons.inj (same.symm.trans same')).1
      have alike := word64_inj small small' one
      subst alike
      exact .inl ⟨machine.memory, held, held'⟩
  | trapped trap => exact .inr ⟨trap, answered, again⟩
  | normal machine => exact answered.elim
  | branch depth machine => exact answered.elim

/-- A count that fits is filled up as `repeat` does, and one that there is no room for, as it
is narrowed, is not answered at all. -/
theorem listFilled_alike_of
    (ready : ListReady engine at_ memory top address meaning words elements)
    (stands : meaning memory word value) (fits : Fits64 word)
    (holds : count.toInt < 2 ^ 31 ∨
    (narrowed count < 2 ^ 31 ∧ engine.ceiling * page < top + listSize (narrowed count))) :
    FilledAlike engine at_ memory meaning word value count := by
  have size := ready.heap.small
  have inside := ready.heap.inside
  have small : narrowed count < 2 ^ 31 := by
    rcases holds with small | ⟨small, -⟩
    · rw [narrowed_small small]
      omega
    · exact small
  refine runs_narrowed.2 ((fill_answers ready.heap fits small).mono ?_)
  intro outcome
  apply Answered.mono
  · rintro after answer ⟨rfl, held, kept, room⟩
    refine ⟨top, _, by omega, builtin_repeat, rfl, _, held, ?_⟩
    have same : narrowed count = count.toInt.toNat := by
      rcases holds with small | ⟨-, full⟩
      · exact narrowed_small small
      · omega
    rw [same]
    exact forall₂_replicate (ready.steady _ word value kept stands)
  · rintro trap ⟨rfl, -⟩
    rfl

/-- Where a count is filled up as `repeat` does it, it fits, or there is no room for it. -/
theorem FilledAlike.holds (heap : Heap engine memory top) (fits : Fits64 word)
    (alike : FilledAlike engine at_ memory meaning word value count) :
    count.toInt < 2 ^ 31 ∨
      (narrowed count < 2 ^ 31 ∧ engine.ceiling * page < top + listSize (narrowed count)) := by
  have size := heap.small
  have inside := heap.inside
  by_cases small : count.toInt < 2 ^ 31
  · exact .inl small
  · have alike' : Answers engine at_ .listFilled memory [word64 word, word64 count.toInt]
        (fun after answer => ∃ block : Nat, block < 2 ^ 32 ∧ answer = word64 block ∧
          ∃ words, ListAt after block words ∧ words.length = count.toInt.toNat)
        fun trap => trap = .unreachable := by
      apply Runs.mono alike
      intro outcome
      apply Answered.mono
      · rintro after answer ⟨block, result, small', same, rfl, held⟩
        rw [builtin_repeat] at same
        rw [← Option.some_inj.1 same] at held
        obtain ⟨words, list, means⟩ := held
        refine ⟨block, small', rfl, words, list, ?_⟩
        rw [means.length_eq, List.length_replicate]
      · exact fun trap stops => stops
    by_cases low : narrowed count < 2 ^ 31
    · obtain ⟨outcome, filled, answered⟩ :=
        (runs_narrowed.2 (fill_answers heap fits low)).unique alike'
      rcases answered_block (by omega) filled answered with
        ⟨after, ⟨list, -⟩, others, list', length⟩ | ⟨trap, full, -⟩
      · have counts := Option.some_inj.1 (list.count.symm.trans list'.count)
        rw [List.length_replicate, length] at counts
        omega
      · exact .inr ⟨low, full.2⟩
    · obtain ⟨outcome, filled, answered⟩ :=
        (runs_narrowed.2
          (fill_astray heap (Nat.le_of_not_lt low) narrowed_lt)).unique alike'
      rcases answered_block (by omega) filled answered with
        ⟨after, header, others, list', -⟩ | ⟨trap, rfl, other⟩
      · have counts := Option.some_inj.1 (header.symm.trans list'.count)
        have most : narrowed count < 2 ^ 32 := narrowed_lt
        omega
      · exact absurd other (by decide)

/-- The byte at an address of a page with an image where the heap starts. -/
def imageByte (image : List UInt8) (address : Nat) : UInt8 :=
  if address < 8 then byteOf (HEAP_START + image.length) address
  else image.getD (address - HEAP_START) 0

theorem imageByte_above {image : List UInt8} (above : HEAP_START + image.length ≤ address) :
    imageByte image address = 0 := by
  rw [HEAP_START] at above
  rw [imageByte, if_neg (by omega), List.getD_eq_getElem?_getD, List.getElem?_eq_none]
  · rfl
  · rw [HEAP_START]
    omega

theorem imageByte_blank {image : List UInt8} (short : image.length ≤ 56000)
    (address : Nat) (above : 1 * page ≤ address) : imageByte image address = 0 := by
  apply imageByte_above
  rw [page] at above
  rw [HEAP_START]
  omega

/-- A page with an image where the heap starts, which ends right above it. -/
def imageMemory (image : List UInt8) (short : image.length ≤ 56000) : Memory where
  bytes := imageByte image
  pages := 1
  blank := imageByte_blank short

/-- The parts of the sentence, and the list of a seven. -/
def listsImage : List UInt8 :=
  stringImage "index " ++ stringImage " is outside a list of " ++
    (List.range 8).map (byteOf 1) ++ (List.range 8).map (byteOf 7)

def listsWhere : Where Helper where
  index := fun helper => if helper = .joinedText then 0 else 1
  place := fun literal => if literal = "index " then 8232 else 8256

def listsEngine : Engine where
  module := { types := [⟨[.i64, .i64], [.i64]⟩, ⟨[.i64], [.i64]⟩], imports := [],
              funcs := [⟨0, Code.strConcat.1, Code.strConcat.2⟩,
                ⟨1, Code.numberText.1, Code.numberText.2⟩], exports := [],
              memoryPages := some 1, exportedMemory := none, data := [], table := [],
              names := [] }
  ceiling := 1
  small := one_page_narrow

/-- A word stands for the number in it. -/
def standsForNumber (_ : Memory) (word : Int) (value : Eval.Value) : Prop :=
  value = .int (Int64.ofInt word)

theorem listsImage_short : listsImage.length ≤ 56000 := by decide

def listsMemory : Memory := imageMemory listsImage listsImage_short

theorem listAt_iff {words : List Int} : ListAt memory address words ↔
    memory.read address = some (words.length : Int) ∧
      address + listSize words.length ≤ memory.size ∧
        (∀ index (below : index < words.length),
          memory.read (address + 8 + index * 8) = some words[index]) ∧ 8 ≤ address := by
  constructor
  · rintro ⟨count, inside, elements, reserved⟩
    exact ⟨count, inside, elements, reserved⟩
  · rintro ⟨count, inside, elements, reserved⟩
    exact ⟨count, inside, elements, reserved⟩

instance : Decidable (ListAt memory address words) := decidable_of_iff' _ listAt_iff

set_option maxRecDepth 100000 in
theorem ready_lists : ListReady listsEngine listsWhere listsMemory 8312 8296 standsForNumber [7]
    [.int 7] where
  heap := {
    bump := by decide
    start := by decide
    inside := by decide
    pages := Nat.le_refl 1
    blank := fun _ above => imageByte_above above }
  list := by decide
  below := by decide
  means := .cons rfl .nil
  steady := fun _ _ _ _ same => same
  opening := by decide
  middle := by decide
  joins := ⟨0, rfl⟩
  numbers := ⟨1, rfl⟩

end Deed.Runtime
