import Deed.Runtime.Copying

/-!
# Joining two strings

`str_concat`: a block for both, their headers added up and the bytes of the one after the
bytes of the other.
-/

namespace Deed.Runtime

open Deed.Wasm

variable {engine : Engine} {rest : List Ins} {post : Outcome → Prop}
  {memory after : Memory} {locals stack : List Value} {top address : Nat}
  {at_ : Where Helper} {text other : String}

/-- A string that stands below the end of the heap. -/
structure Stands (memory : Memory) (top address : Nat) (text : String) : Prop where
  string : StringAt memory address text
  below : address + stringSize (bytesOf text).length ≤ top

theorem Stands.kept (stands : Stands memory top address text) {higher : Nat}
    (kept : Kept memory after top) (above : top ≤ higher) :
    Stands after higher address text :=
  ⟨stands.string.kept kept stands.below, stands.below.trans above⟩

theorem bytesOf_eq (text : String) :
    bytesOf text = text.toList.flatMap String.utf8EncodeChar := by
  have whole : text.toUTF8 = (text.toList.flatMap String.utf8EncodeChar).toByteArray := by
    have same := String.toByteArray_ofList (l := text.toList)
    rw [String.ofList_toList] at same
    exact same
  rw [bytesOf, whole]
  exact List.toList_data_toByteArray

theorem bytesOf_append : bytesOf (text ++ other) = bytesOf text ++ bytesOf other := by
  rw [bytesOf_eq, bytesOf_eq, bytesOf_eq, String.toList_append, List.flatMap_append]

/-- A character takes a byte at least. -/
theorem length_le_bytes (text : String) : text.length ≤ (bytesOf text).length := by
  rw [bytesOf_eq, ← String.length_toList]
  induction text.toList with
  | nil => exact Nat.le_refl _
  | cons character rest ih =>
      have some_ : 1 ≤ (String.utf8EncodeChar character).length := by
        rw [String.length_utf8EncodeChar]
        exact character.utf8Size_pos
      rw [List.flatMap_cons, List.length_append, List.length_cons]
      omega

/-- A new string at the end of the heap, with everything below it kept. -/
structure Made (engine : Engine) (memory after : Memory) (top : Nat) (text : String) :
    Prop where
  string : StringAt after top text
  heap : Heap engine after (top + stringSize (bytesOf text).length)
  kept : Kept memory after top

theorem Made.stands (made : Made engine memory after top text) :
    Stands after (top + stringSize (bytesOf text).length) top text :=
  ⟨made.string, Nat.le_refl _⟩

/-- The engine has no room for `room` bytes more. -/
def Full (engine : Engine) (top room : Nat) (trap : Trap) : Prop :=
  trap = .unreachable ∧ engine.ceiling * page < top + room

theorem strConcat_body : Code.strConcat.2 =
    byteLength 0 ++ (.localSet 2 :: (byteLength 1 ++
      (.localSet 3 :: .localGet 2 :: .localGet 3 :: .i32Add :: .localSet 4 ::
        (allocate 5 (stringRoom 4) ++
          (Code.headers 5
            [.localGet 0, .i32WrapI64, .i64Load 0, .localGet 1, .i32WrapI64, .i64Load 0,
              .i64Add]
            [.localGet 4, .i64ExtendI32S] ++
            (copyTo 6 2 0 (Code.placeAt 5 [6]) ++
              (copyTo 6 3 1 (Code.placeAt 5 [6, 2]) ++ Code.answer 5))))))) := rfl

theorem runs_placeAt {out index : UInt32} {count : Nat}
    (atOut : locals[out.toNat]? = some (word32 address))
    (atIndex : locals[index.toNat]? = some (word32 count)) :
    Runs engine (Code.placeAt out [index] ++ rest) ⟨memory, locals, stack⟩ post ↔
      Runs engine rest ⟨memory, locals, word32 (address + 16 + count) :: stack⟩ post := by
  simp [Code.placeAt, atOut, atIndex]

theorem runs_placeAt_after {out index start : UInt32} {count offset : Nat}
    (atOut : locals[out.toNat]? = some (word32 address))
    (atIndex : locals[index.toNat]? = some (word32 count))
    (atStart : locals[start.toNat]? = some (word32 offset)) :
    Runs engine (Code.placeAt out [index, start] ++ rest) ⟨memory, locals, stack⟩ post ↔
      Runs engine rest ⟨memory, locals, word32 (address + 16 + offset + count) :: stack⟩
        post := by
  simp [Code.placeAt, atOut, atIndex, atStart]

theorem runs_answerAt {out : UInt32} (atOut : locals[out.toNat]? = some (word32 address))
    (small : address < 2 ^ 31) {answers : Memory → Value → Prop} {stops : Trap → Prop} :
    Runs engine (Code.answer out) ⟨memory, locals, stack⟩ (Answered answers stops) ↔
      answers memory (word64 address) := by
  rw [Code.answer, runs_localGet, atOut, Option.elim_some, runs_i64ExtendI32S small,
    runs_return]
  exact answered_returned

/-- The block that holds the headers and the bytes of two strings is their string. -/
theorem joined_string {now : Memory}
    (filling : Filling engine memory now top (stringSize (bytesOf (text ++ other)).length))
    (characters : now.read top = some ((text ++ other).length : Int))
    (count : now.read (top + 8) = some ((bytesOf (text ++ other)).length : Int)) :
    StringAt (putBytes (putBytes now (top + 16) (bytesOf text))
      (top + 16 + (bytesOf text).length) (bytesOf other)) top (text ++ other) := by
  have start := filling.start
  have inside := filling.inside
  have room := length_le_stringSize (bytesOf (text ++ other)).length
  rw [HEAP_START] at start
  have sum : (bytesOf (text ++ other)).length = (bytesOf text).length + (bytesOf other).length := by
    rw [bytesOf_append, List.length_append]
  constructor
  · apply read_putBytes_other (by omega)
    exact read_putBytes_other (by omega) characters
  · apply read_putBytes_other (by omega)
    exact read_putBytes_other (by omega) count
  · rw [size_putBytes, size_putBytes]
    exact inside
  · intro index below
    simp only [bytesOf_append, List.getElem_append]
    split
    · next early =>
        rw [bytes_putBytes_other (by omega)]
        exact bytes_putBytes early (by omega)
    · next late =>
        have placed : top + 16 + index =
            top + 16 + (bytesOf text).length + (index - (bytesOf text).length) := by omega
        rw [placed]
        exact bytes_putBytes (by omega) (by rw [size_putBytes]; omega)
  · omega

/-- `str_concat` answers with both strings as one, in a block of its own, or has no room. -/
theorem joinedText_answers {left right : Nat} (heap : Heap engine memory top)
    (first : Stands memory top left text) (second : Stands memory top right other) :
    Answers engine at_ .joinedText memory [word64 left, word64 right]
      (fun after value => value = word64 top ∧ Made engine memory after top (text ++ other))
      (Full engine top (stringSize (bytesOf (text ++ other)).length)) := by
  have size := heap.small
  have start := heap.start
  have inside := heap.inside
  have small := first.string.small heap.pages
  have small' := second.string.small heap.pages
  have below := first.below
  have below' := second.below
  have least := length_le_stringSize (bytesOf text).length
  have least' := length_le_stringSize (bytesOf other).length
  have sum : (bytesOf text).length + (bytesOf other).length = (bytesOf (text ++ other)).length := by
    rw [bytesOf_append, List.length_append]
  rw [HEAP_START] at start
  show Runs engine Code.strConcat.2 ⟨memory, [word64 left, word64 right, word32 0, word32 0,
    word32 0, word32 0, word32 0], []⟩ _
  rw [strConcat_body, runs_byteLength first.string heap.pages rfl, runs_localSet,
    if_pos (Nat.lt_of_sub_eq_succ rfl), runs_byteLength second.string heap.pages rfl]
  simp only [runs_localSet, runs_localGet, UInt32.reduceToNat, List.set_cons_succ,
    List.set_cons_zero, List.length_cons, List.length_nil, List.getElem?_cons_succ,
    List.getElem?_cons_zero, Option.elim_some, runs_i32Add, Nat.reduceAdd, Nat.reduceLT,
    if_true, sum]
  refine @runs_allocate engine _ _ memory _ _ top 5 _
    (stringSize (bytesOf (text ++ other)).length) heap (Nat.lt_of_sub_eq_succ rfl) ?_ ?_ ?_ ?_
  · rw [stringSize, WORD_eq]
    omega
  · intro rest stack post
    exact runs_stringRoom rfl (by omega)
  · intro after reserved fits
    have filling := reserved.filling heap.start
    have early := first.string.kept filling.kept below
    have early' := second.string.kept filling.kept below'
    have room := filling.inside
    have most := length_le_stringSize (bytesOf (text ++ other)).length
    have characters := early.characters
    have characters' := early'.characters
    have known : ((text.length : Int) + (other.length : Int)) = ((text ++ other).length : Int) := by
      rw [String.length_append, Nat.cast_add]
    simp only [Code.headers, seq_cons, seq_nil, List.append_nil, List.cons_append,
      List.nil_append]
    simp (disch := omega) only [runs_localGet, UInt32.reduceToNat, List.getElem?_cons_succ,
      List.getElem?_cons_zero, List.set_cons_succ, List.set_cons_zero, Option.elim_some,
      runs_i32WrapI64, runs_i64Load, Nat.add_zero, characters, characters', runs_i64Add, known,
      runs_i64Store, runs_i64ExtendI32S, WORD_eq, UInt32.reduceOfNat, if_pos, Memory.size_put]
    have narrow := length_le_bytes (text ++ other)
    have first' : Filling engine memory (after.put top ((text ++ other).length : Int)) top _ :=
      filling.put (le_refl top) (by omega)
    have second' : Filling engine memory ((after.put top ((text ++ other).length : Int)).put
        (top + 8) ((bytesOf (text ++ other)).length : Int)) top _ :=
      first'.put (Nat.le_add_right top 8) (by omega)
    have header : ((after.put top ((text ++ other).length : Int)).put (top + 8)
        ((bytesOf (text ++ other)).length : Int)).read top =
          some ((text ++ other).length : Int) := by
      apply Memory.read_put_other (by omega)
      exact Memory.read_put (by omega) (by constructor <;> omega)
    have header' : ((after.put top ((text ++ other).length : Int)).put (top + 8)
        ((bytesOf (text ++ other)).length : Int)).read (top + 8) =
          some ((bytesOf (text ++ other)).length : Int) :=
      Memory.read_put (by rw [Memory.size_put]; omega) (by constructor <;> omega)
    have left' := first.string.kept second'.kept below
    generalize (after.put top ((text ++ other).length : Int)).put (top + 8)
      ((bytesOf (text ++ other)).length : Int) = now at second' header header' left'
    have room' := second'.inside
    have third : Filling engine memory (putBytes now (top + 16) (bytesOf text)) top _ :=
      second'.putBytes (by omega) (by omega)
    have fourth : Filling engine memory (putBytes (putBytes now (top + 16) (bytesOf text))
        (top + 16 + (bytesOf text).length) (bytesOf other)) top _ :=
      third.putBytes (by omega) (by omega)
    have above : left + 16 + (bytesOf text).length ≤ top + 16 := by omega
    have above' : right + 16 + (bytesOf other).length ≤
        top + 16 + (bytesOf text).length := by omega
    refine runs_copyTo left' second'.heap.pages above (by omega) (Nat.lt_of_sub_eq_succ rfl)
      (fun _ => rfl) (fun _ => rfl) ?_ ?_
    · intro count held rest stack post
      exact runs_placeAt rfl rfl
    · refine runs_copyTo (second.string.kept third.kept below') third.heap.pages above'
        (by rw [size_putBytes]; omega) (Nat.lt_of_sub_eq_succ rfl) (fun _ => rfl)
        (fun _ => rfl) ?_ ?_
      · intro count held rest stack post
        exact runs_placeAt_after rfl rfl rfl
      · refine (runs_answerAt rfl (by omega)).2 ⟨rfl, ?_⟩
        exact ⟨joined_string second' header header', fourth.heap, fourth.kept⟩
  · exact fun full => ⟨rfl, full⟩

/-- A call of the helper goes on with the new string on the stack. -/
theorem runs_join {left right : Nat} (linked : Linked engine at_ .joinedText)
    (heap : Heap engine memory top) (first : Stands memory top left text)
    (second : Stands memory top right other)
    (continues : ∀ after, Made engine memory after top (text ++ other) →
      Runs engine rest ⟨after, locals, word64 top :: stack⟩ post)
    (stopped : ∀ trap, Full engine top (stringSize (bytesOf (text ++ other)).length) trap →
      post (.trapped trap)) :
    Runs engine (at_.call .joinedText :: rest)
      ⟨memory, locals, word64 right :: word64 left :: stack⟩ post := by
  have called : Answers engine at_ .joinedText memory [word64 left, word64 right] _ _ :=
    joinedText_answers heap first second
  refine runs_call_helper linked rfl rfl called ?_ stopped
  rintro after value ⟨rfl, made⟩
  exact continues after made

end Deed.Runtime
