import Deed.Runtime.Answering
import Deed.Runtime.Reading

/-!
# Writing a number

`number_text`: the digits of a number counted first and then written from the last one back,
out of a number that is not above zero.
-/

namespace Deed.Runtime

open Deed.Wasm

/-! ## The bytes of a number -/

/-- The decimal digits of a number, as bytes. -/
def decimalBytes (number : Nat) : List UInt8 :=
  (Nat.toDigits 10 number).map fun digit => UInt8.ofNat digit.toNat

theorem decimalBytes_eq (number : Nat) : decimalBytes number =
    if number < 10 then [UInt8.ofNat (48 + number)]
    else decimalBytes (number / 10) ++ [UInt8.ofNat (48 + number % 10)] := by
  rw [decimalBytes, Nat.toDigits_eq_if (by decide)]
  split
  · next small =>
      rw [List.map_singleton, Nat.toNat_digitChar_of_lt_ten small]
  · rw [List.map_append, List.map_singleton,
      Nat.toNat_digitChar_of_lt_ten (Nat.mod_lt _ (by decide))]
    rfl

theorem decimalBytes_pos (number : Nat) : 1 ≤ (decimalBytes number).length := by
  rw [decimalBytes_eq]
  split
  · exact Nat.le_refl 1
  · rw [List.length_append]
    exact Nat.le_add_left _ _

/-- A number has a digit at least, and as many more as its tenth. -/
theorem length_decimalBytes (number : Nat) : (decimalBytes number).length =
    1 + if number / 10 = 0 then 0 else (decimalBytes (number / 10)).length := by
  rw [decimalBytes_eq]
  by_cases small : number < 10
  · rw [if_pos small, if_pos (by omega)]
    rfl
  · rw [if_neg small, if_neg (by omega), List.length_append, Nat.add_comm]
    rfl

/-- A number below `10 ^ count` has at most `count` digits. -/
theorem decimalBytes_le {number count : Nat} (small : number < 10 ^ (count + 1)) :
    (decimalBytes number).length ≤ count + 1 := by
  induction count generalizing number with
  | zero =>
      rw [decimalBytes_eq, if_pos (by omega)]
      exact Nat.le_refl 1
  | succ count ih =>
      rw [length_decimalBytes]
      split
      · omega
      · have tenth : number / 10 < 10 ^ (count + 1) := by
          rw [Nat.div_lt_iff_lt_mul (by decide), ← Nat.pow_succ]
          exact small
        have less := ih tenth
        omega

/-- The bytes of a number: a minus where it is below zero, and its digits. -/
def numberBytes (number : Int) : List UInt8 :=
  (if number < 0 then [45] else []) ++ decimalBytes number.natAbs

theorem encode_plain {characters : List Char} (plain : ∀ c ∈ characters, c.toNat < 128) :
    encode characters = characters.map fun c => UInt8.ofNat c.toNat := by
  induction characters with
  | nil => rfl
  | cons first rest ih =>
      rw [encode_ascii (plain first List.mem_cons_self), List.map_cons,
        ih fun c member => plain c (List.mem_cons_of_mem _ member)]

theorem toString_digits (number : Int) : (toString number).toList =
    (if number < 0 then ['-'] else []) ++ Nat.toDigits 10 number.natAbs := by
  cases number with
  | ofNat number =>
      have above : ¬Int.ofNat number < 0 := Int.not_lt.2 (Int.natCast_nonneg number)
      rw [if_neg above, List.nil_append]
      exact String.toList_ofList
  | negSucc number =>
      rw [if_pos (Int.negSucc_lt_zero number)]
      show ("-" ++ Nat.repr (number + 1)).toList = _
      rw [String.toList_append]
      congr 1
      exact String.toList_ofList

theorem digit_plain {number : Int} : ∀ c ∈ (toString number).toList, c.toNat < 128 := by
  intro c member
  rw [toString_digits, List.mem_append] at member
  rcases member with sign | digit
  · split at sign
    · rw [List.mem_singleton.1 sign]
      decide
    · exact absurd sign List.not_mem_nil
  · have digit' := Nat.isDigit_of_mem_toDigits (by decide) (by decide) digit
    rw [isDigit_char] at digit'
    omega

theorem bytesOf_toString (number : Int) : bytesOf (toString number) = numberBytes number := by
  rw [bytesOf_eq]
  show encode (toString number).toList = _
  rw [encode_plain digit_plain, toString_digits, numberBytes, List.map_append]
  congr 1
  split
  · rfl
  · rfl

theorem length_toString (number : Int) :
    (toString number).length = (numberBytes number).length := by
  rw [← bytesOf_toString, bytesOf_eq, ← String.length_toList]
  show _ = (encode (toString number).toList).length
  rw [encode_plain digit_plain, List.length_map]

/-! ## Counting the digits -/

variable {engine : Engine} {rest : List Ins} {post : Outcome → Prop}
  {memory after now : Memory} {locals stack : List Value} {top address room : Nat}
  {at_ : Where Helper} {text : String}

/-- A tenth of a number that is not above zero, rounded towards zero. -/
theorem tdiv_ten (number : Nat) : (-(number : Int)).tdiv 10 = -((number / 10 : Nat) : Int) := by
  rw [Int.neg_tdiv, Int.natCast_div]
  rfl

theorem tmod_ten (number : Nat) : 0 - (-(number : Int)).tmod 10 = ((number % 10 : Nat) : Int) := by
  rw [Int.neg_tmod, zero_sub, neg_neg, Int.natCast_mod]
  rfl

/-- The locals of the writing: the number and what is written of it, what is left of it, the
digits, whether there is a minus, the block, where the writing is, and the bytes in all. -/
def decimalFrame (number : Int) (written left digits : Nat) (negative : Bool)
    (out index total : Nat) : List Value :=
  [word64 number, word64 (-(written : Int)), word64 (-(left : Int)), word32 digits,
    word32 negative.toNat, word32 out, word32 index, word32 total]

theorem runs_countDigits {number : Int} {count : Nat} {negative : Bool} {out index total : Nat}
    (small : count ≤ 2 ^ 63)
    (continues : Runs engine rest ⟨memory, decimalFrame number count 0
      (decimalBytes count).length negative out index total, stack⟩ post) :
    Runs engine (Code.countDigits ++ rest)
      ⟨memory, decimalFrame number count count 0 negative out index total, stack⟩ post := by
  rw [Code.countDigits, List.singleton_append]
  refine runs_block_loop (fun left now held => ∃ digits : Nat, now = memory ∧
      held = decimalFrame number count left digits negative out index total ∧ left ≤ count ∧
        digits + (decimalBytes left).length = (decimalBytes count).length)
    ⟨0, rfl, rfl, Nat.le_refl _, Nat.zero_add _⟩ ?_
  rintro left now held ⟨digits, rfl, rfl, less, whole⟩
  have fits : Fits64 (-(left : Int)) := by constructor <;> omega
  have ten : Fits64 10 := by constructor <;> decide
  have fits' : Fits64 (-((left / 10 : Nat) : Int)) := by constructor <;> omega
  have length := length_decimalBytes left
  simp only [increment, seq_cons, seq_nil, List.append_nil, List.cons_append, List.nil_append,
    decimalFrame, runs_localGet, UInt32.reduceToNat, List.getElem?_cons_succ,
    List.getElem?_cons_zero, Option.elim_some, runs_i32Const_literal, runs_i32Add, runs_localSet,
    List.length_cons, List.length_nil, Nat.reduceAdd, Nat.reduceLT, if_true, List.set_cons_succ,
    List.set_cons_zero, runs_i64Const_literal]
  rw [runs_i64DivS fits ten (by decide) (by decide), tdiv_ten]
  simp (disch := assumption) only [runs_localGet, UInt32.reduceToNat, List.getElem?_cons_succ,
    List.getElem?_cons_zero, Option.elim_some, runs_localSet, List.length_cons, List.length_nil,
    Nat.reduceAdd, Nat.reduceLT, if_true, List.set_cons_succ, List.set_cons_zero, runs_i64Eqz,
    runs_brIf]
  by_cases done : left / 10 = 0
  · rw [if_pos (by omega), done]
    rw [if_pos done] at length
    have last : digits + 1 = (decimalBytes count).length := by omega
    rw [last]
    exact continues
  · rw [if_neg (by omega), runs_br]
    rw [if_neg done] at length
    exact ⟨left / 10, by omega, digits + 1, rfl, rfl, by omega, by omega⟩

/-! ## Writing them from the end -/

/-- What some bytes written into a memory leave: the bytes there, and the rest as it was. -/
structure Wrote (memory after : Memory) (address : Nat) (bytes : List UInt8) : Prop where
  pages : after.pages = memory.pages
  there : ∀ index (below : index < bytes.length), after.bytes (address + index) = bytes[index]
  other : ∀ at_, at_ < address ∨ address + bytes.length ≤ at_ →
    after.bytes at_ = memory.bytes at_

theorem Wrote.nothing (memory : Memory) (address : Nat) : Wrote memory memory address [] :=
  ⟨rfl, fun _ below => absurd below (Nat.not_lt_zero _), fun _ _ => rfl⟩

theorem Wrote.size {bytes : List UInt8} (wrote : Wrote memory after address bytes) :
    after.size = memory.size := by
  rw [Memory.size, wrote.pages, Memory.size]

/-- One byte more in front. -/
theorem Wrote.cons {byte : UInt8} {bytes : List UInt8}
    (wrote : Wrote memory after (address + 1) bytes) (inside : address < memory.size) :
    Wrote memory (after.putByte address byte.toNat) address (byte :: bytes) where
  pages := by rw [Memory.pages_putByte, wrote.pages]
  there := by
    intro index below
    rw [List.length_cons] at below
    cases index with
    | zero =>
        rw [Nat.add_zero, List.getElem_cons_zero]
        exact Memory.bytes_putByte (by rw [wrote.size]; exact inside)
    | succ index =>
        have moved : address + (index + 1) = address + 1 + index := by omega
        rw [Memory.bytes_putByte_other (by omega), moved, List.getElem_cons_succ]
        exact wrote.there index (by omega)
  other := by
    intro at' apart
    rw [List.length_cons] at apart
    rw [Memory.bytes_putByte_other (by omega)]
    exact wrote.other at' (by omega)

/-- One byte in front, written before the others. -/
theorem Wrote.before {byte : UInt8} {bytes : List UInt8}
    (wrote : Wrote (memory.putByte address byte.toNat) after (address + 1) bytes)
    (inside : address < memory.size) : Wrote memory after address (byte :: bytes) where
  pages := by rw [wrote.pages, Memory.pages_putByte]
  there := by
    intro index below
    rw [List.length_cons] at below
    cases index with
    | zero =>
        rw [Nat.add_zero, List.getElem_cons_zero, wrote.other address (by omega)]
        exact Memory.bytes_putByte inside
    | succ index =>
        have moved : address + (index + 1) = address + 1 + index := by omega
        rw [moved, List.getElem_cons_succ]
        exact wrote.there index (by omega)
  other := by
    intro at' apart
    rw [List.length_cons] at apart
    rw [wrote.other at' (by omega), Memory.bytes_putByte_other (by omega)]

theorem Wrote.read {bytes : List UInt8} (wrote : Wrote memory after address bytes)
    {other : Nat} {found : Int} (apart : other + 8 ≤ address ∨ address + bytes.length ≤ other)
    (reads : memory.read other = some found) : after.read other = some found := by
  refine Memory.read_congr (Nat.le_of_eq wrote.size.symm) ?_ reads
  intro at' above below
  exact wrote.other at' (by omega)

theorem Wrote.filling {bytes : List UInt8} (wrote : Wrote now after address bytes)
    (filling : Filling engine memory now top room) (above : top ≤ address)
    (below : address + bytes.length ≤ top + room) : Filling engine memory after top room := by
  have start := filling.start
  rw [HEAP_START] at start
  constructor
  · constructor
    · exact wrote.read (by rw [BUMP_eq]; omega) filling.heap.bump
    · exact filling.heap.start
    · rw [wrote.size]
      exact filling.heap.inside
    · rw [wrote.pages]
      exact filling.heap.pages
    · intro other beyond
      rw [wrote.other other (by omega)]
      exact filling.heap.blank other beyond
  · constructor
    · intro other reserved under
      rw [wrote.other other (by omega)]
      exact filling.kept.bytes other reserved under
    · rw [wrote.size]
      exact filling.kept.size
  · exact filling.start

/-- The difference of two numbers in an `i32`, where it may be below zero. -/
theorem runs_i32Sub_wrapped {a b : Nat} (small : b ≤ 2 ^ 32) :
    Runs engine (.i32Sub :: rest) ⟨memory, locals, word32 b :: word32 a :: stack⟩ post ↔
      Runs engine rest ⟨memory, locals, word32 (a + 2 ^ 32 - b) :: stack⟩ post := by
  have round : Int32.ofNat (a + 2 ^ 32) = Int32.ofNat a := by
    rw [Int32.ofNat_add, show Int32.ofNat (2 ^ 32) = 0 from rfl, Int32.add_zero]
  have same : word32 (a + 2 ^ 32 - b) = .i32 (Int32.ofNat a - Int32.ofNat b) := by
    rw [word32, Int32.ofNat_sub _ _ (small.trans (Nat.le_add_left _ _)), round]
  rw [runs_plain rfl, same]
  rfl

/-- The digits go where the block has room for them, the last one first. -/
theorem runs_writeDigits {number : Int} {count digits index total : Nat} {negative : Bool}
    {out : Nat} (small : count ≤ 2 ^ 63) (size : memory.size ≤ 2 ^ 30)
    (place : index + 1 = negative.toNat + (decimalBytes count).length)
    (inside : out + 16 + index < memory.size)
    (continues : ∀ after held, Wrote memory after (out + 16 + negative.toNat) (decimalBytes count) →
      held[5]? = some (word32 out) → Runs engine rest ⟨after, held, stack⟩ post) :
    Runs engine (Code.writeDigits ++ rest)
      ⟨memory, decimalFrame number count count digits negative out index total, stack⟩ post := by
  rw [Code.writeDigits, List.singleton_append]
  refine runs_block_loop (fun left now held => ∃ at_ suffix, 
      held = decimalFrame number count left digits negative out at_ total ∧ left ≤ count ∧
        Wrote memory now (out + 16 + at_ + 1) suffix ∧ at_ ≤ index ∧
          at_ + 1 = negative.toNat + (decimalBytes left).length ∧
            decimalBytes left ++ suffix = decimalBytes count)
    ⟨index, [], rfl, Nat.le_refl _, .nothing _ _, Nat.le_refl _, place, List.append_nil _⟩ ?_
  rintro left now held ⟨at', suffix, rfl, less, wrote, early, placed, whole⟩
  have fits : Fits64 (-(left : Int)) := by constructor <;> omega
  have ten : Fits64 10 := by constructor <;> decide
  have fits' : Fits64 (-((left / 10 : Nat) : Int)) := by constructor <;> omega
  have digit : left % 10 < 10 := Nat.mod_lt _ (by decide)
  have here : out + 16 + at' < now.size := by
    rw [wrote.size]
    omega
  have byte : (UInt8.ofNat (48 + left % 10)).toNat = 48 + left % 10 := by
    rw [UInt8.toNat_ofNat', Nat.mod_eq_of_lt (by omega)]
  have wrote' : Wrote memory (now.putByte (out + 16 + at') (48 + left % 10)) (out + 16 + at')
      (UInt8.ofNat (48 + left % 10) :: suffix) := by
    have one : Wrote memory _ _ (UInt8.ofNat (48 + left % 10) :: suffix) :=
      wrote.cons (by omega)
    rwa [byte] at one
  simp only [seq_cons, seq_nil, List.append_nil]
  rw [runs_placeAt rfl rfl]
  simp (disch := first | assumption | omega) only [decimalFrame, runs_localGet,
    UInt32.reduceToNat, List.getElem?_cons_succ, List.getElem?_cons_zero, Option.elim_some,
    runs_i32Const_literal, runs_i64Const_literal]
  rw [runs_i64RemS fits ten (by decide)]
  simp (disch := first | assumption | omega) only [runs_i64Sub, tmod_ten, runs_i32WrapI64,
    runs_i32Add, runs_i32Store8, UInt32.reduceToNat, Nat.add_zero, here, if_true,
    runs_localGet, List.getElem?_cons_succ, List.getElem?_cons_zero, Option.elim_some,
    runs_i64Const_literal]
  rw [runs_i64DivS fits ten (by decide) (by decide), tdiv_ten]
  simp (disch := first | assumption | omega) only [runs_localSet, List.length_cons,
    List.length_nil, Nat.reduceAdd, Nat.reduceLT, if_true, List.set_cons_succ,
    List.set_cons_zero, runs_localGet, UInt32.reduceToNat, List.getElem?_cons_succ,
    List.getElem?_cons_zero, Option.elim_some, runs_i32Const_literal]
  have digits_eq := decimalBytes_eq left
  by_cases done : left / 10 = 0
  · rw [if_pos (by omega)] at digits_eq
    have only : left % 10 = left := by omega
    rw [runs_i32Sub_wrapped (by decide)]
    simp (disch := assumption) only [runs_localSet, List.length_cons, List.length_nil,
      Nat.reduceAdd, Nat.reduceLT, if_true, List.set_cons_succ, List.set_cons_zero,
      runs_localGet, UInt32.reduceToNat, List.getElem?_cons_succ, List.getElem?_cons_zero,
      Option.elim_some, runs_i64Eqz, runs_brIf]
    rw [if_pos (by omega)]
    have bytes : UInt8.ofNat (48 + left % 10) :: suffix = decimalBytes count := by
      rw [only, ← whole, digits_eq]
      rfl
    rw [digits_eq, List.length_singleton] at placed
    have front : at' = negative.toNat := by omega
    refine continues _ _ ?_ rfl
    rw [← front, ← bytes]
    exact wrote'
  · rw [if_neg (by omega)] at digits_eq
    rw [digits_eq, List.length_append, List.length_singleton] at placed
    have pos := decimalBytes_pos (left / 10)
    rw [runs_i32Sub (by omega)]
    simp (disch := assumption) only [runs_localSet, List.length_cons, List.length_nil,
      Nat.reduceAdd, Nat.reduceLT, if_true, List.set_cons_succ, List.set_cons_zero,
      runs_localGet, UInt32.reduceToNat, List.getElem?_cons_succ, List.getElem?_cons_zero,
      Option.elim_some, runs_i64Eqz, runs_brIf]
    rw [if_neg (by omega), runs_br]
    have moved : out + 16 + (at' - 1) + 1 = out + 16 + at' := by omega
    refine ⟨left / 10, by omega, at' - 1, UInt8.ofNat (48 + left % 10) :: suffix, rfl, by omega, ?_,
      by omega, by omega, ?_⟩
    · rw [moved]
      exact wrote'
    · rw [← whole, digits_eq, List.append_assoc]
      rfl

theorem runs_placeAt_first {out : UInt32} (atOut : locals[out.toNat]? = some (word32 address)) :
    Runs engine (Code.placeAt out [] ++ rest) ⟨memory, locals, stack⟩ post ↔
      Runs engine rest ⟨memory, locals, word32 (address + 16) :: stack⟩ post := by
  simp [Code.placeAt, atOut]

/-- The minus, where there is one, and the digits. -/
theorem runs_writeNumber {number : Int} {count left digits index : Nat} {negative : Bool}
    {out : Nat} (small : count ≤ 2 ^ 63) (size : memory.size ≤ 2 ^ 30)
    (inside : out + 16 + (negative.toNat + (decimalBytes count).length) ≤ memory.size)
    (continues : ∀ after held,
      Wrote memory after (out + 16) ((if negative then [45] else []) ++ decimalBytes count) →
      held[5]? = some (word32 out) → Runs engine rest ⟨after, held, stack⟩ post) :
    Runs engine (.if_ none (Code.placeAt 5 [] ++ [.i32Const 45, .i32Store8 0]) [] ::
        .localGet 7 :: .i32Const 1 :: .i32Sub :: .localSet 6 :: .localGet 1 :: .localSet 2 ::
          (Code.writeDigits ++ rest))
      ⟨memory, decimalFrame number count left digits negative out index
        (negative.toNat + (decimalBytes count).length), word32 negative.toNat :: stack⟩ post := by
  have some_ := decimalBytes_pos count
  have flag : word32 negative.toNat = boolean (negative = true) := by cases negative <;> rfl
  have digits_written : ∀ (now : Memory), now.size = memory.size →
      (∀ after, Wrote now after (out + 16 + negative.toNat) (decimalBytes count) →
        Wrote memory after (out + 16)
          ((if negative then [45] else []) ++ decimalBytes count)) →
      Runs engine (.localGet 7 :: .i32Const 1 :: .i32Sub :: .localSet 6 :: .localGet 1 ::
          .localSet 2 :: (Code.writeDigits ++ rest))
        ⟨now, decimalFrame number count left digits negative out index
          (negative.toNat + (decimalBytes count).length), stack⟩ post := by
    intro now same whole
    simp only [decimalFrame, runs_localGet, UInt32.reduceToNat, List.getElem?_cons_succ,
      List.getElem?_cons_zero, Option.elim_some, runs_i32Const_literal]
    rw [runs_i32Sub (by omega)]
    simp only [runs_localGet, runs_localSet, UInt32.reduceToNat, List.getElem?_cons_succ,
      List.getElem?_cons_zero, Option.elim_some, List.length_cons, List.length_nil, Nat.reduceAdd,
      Nat.reduceLT, if_true, List.set_cons_succ, List.set_cons_zero]
    refine runs_writeDigits small (by omega) (by omega) (by omega) ?_
    intro after held wrote found
    exact continues after held (whole after wrote) found
  rw [flag, runs_if]
  cases negative with
  | false =>
      rw [if_neg Bool.false_ne_true, runs_nil, leave_normal, then_normal]
      exact digits_written memory rfl fun after wrote => wrote
  | true =>
      have here : out + 16 < memory.size := by
        rw [Bool.toNat_true] at inside
        omega
      rw [if_pos rfl, runs_placeAt_first rfl]
      simp only [runs_i32Const_literal]
      simp (disch := omega) only [runs_i32Store8, UInt32.reduceToNat, Nat.add_zero, here, if_true,
        runs_nil, leave_normal, then_normal]
      refine digits_written _ Memory.size_putByte fun after wrote => ?_
      have byte : (45 : Nat) = (45 : UInt8).toNat := rfl
      rw [byte] at wrote
      exact wrote.before here

/-! ## The helper -/

/-- A block with both headers and the bytes of a text in it holds the text. -/
theorem string_written {last : Memory} {bytes : List UInt8}
    (filling : Filling engine memory now top (stringSize bytes.length))
    (characters : now.read top = some (bytes.length : Int))
    (count : now.read (top + 8) = some (bytes.length : Int))
    (wrote : Wrote now last (top + 16) bytes) (same : bytesOf text = bytes)
    (length : text.length = bytes.length) : Made engine memory last top text := by
  have start := filling.start
  have room := length_le_stringSize bytes.length
  rw [HEAP_START] at start
  have filled := wrote.filling filling (by omega) (by omega)
  subst same
  refine ⟨⟨?_, ?_, ?_, wrote.there, by omega⟩, filled.heap, filled.kept⟩
  · rw [length]
    exact wrote.read (by omega) characters
  · exact wrote.read (by omega) count
  · rw [wrote.size]
    exact filling.inside

theorem numberText_body : Code.numberText.2 =
    .localGet 0 :: .i64Const 0 :: .i64LtS :: .localSet 4 :: .localGet 0 :: .localSet 1 ::
      .localGet 4 :: .i32Eqz :: .if_ none [.i64Const 0, .localGet 0, .i64Sub, .localSet 1] [] ::
        .i32Const 0 :: .localSet 3 :: .localGet 1 :: .localSet 2 :: (Code.countDigits ++
          (.localGet 3 :: .localGet 4 :: .i32Add :: .localSet 7 :: (allocate 5 (stringRoom 7) ++
            (Code.headers 5 [.localGet 7, .i64ExtendI32S] [.localGet 7, .i64ExtendI32S] ++
              (.localGet 4 :: .if_ none (Code.placeAt 5 [] ++ [.i32Const 45, .i32Store8 0]) [] ::
                .localGet 7 :: .i32Const 1 :: .i32Sub :: .localSet 6 :: .localGet 1 ::
                  .localSet 2 :: (Code.writeDigits ++ Code.answer 5)))))) := rfl

/-- The code behind the sign: the digits counted, and the block with them written. -/
def writeOut : List Ins :=
  .i32Const 0 :: .localSet 3 :: .localGet 1 :: .localSet 2 :: (Code.countDigits ++
    (.localGet 3 :: .localGet 4 :: .i32Add :: .localSet 7 :: (allocate 5 (stringRoom 7) ++
      (Code.headers 5 [.localGet 7, .i64ExtendI32S] [.localGet 7, .i64ExtendI32S] ++
        (.localGet 4 :: .if_ none (Code.placeAt 5 [] ++ [.i32Const 45, .i32Store8 0]) [] ::
          .localGet 7 :: .i32Const 1 :: .i32Sub :: .localSet 6 :: .localGet 1 ::
            .localSet 2 :: (Code.writeDigits ++ Code.answer 5))))))

theorem numberText_written {number : Int} (heap : Heap engine memory top)
    (fits : Fits64 number) :
    Runs engine writeOut ⟨memory, decimalFrame number number.natAbs 0 0 (decide (number < 0)) 0 0 0,
        []⟩
      (Answered (fun after value => value = word64 top ∧
          Made engine memory after top (toString number))
        (Full engine top (stringSize (bytesOf (toString number)).length))) := by
  have size := heap.small
  have start := heap.start
  have inside := heap.inside
  rw [HEAP_START] at start
  have small : number.natAbs ≤ 2 ^ 63 := by
    have low := fits.1
    have high := fits.2
    omega
  have digits := @decimalBytes_le number.natAbs 19 (by omega)
  rw [writeOut, decimalFrame]
  simp only [runs_i32Const_literal, runs_localGet, UInt32.reduceToNat, List.getElem?_cons_succ,
    List.getElem?_cons_zero, Option.elim_some, runs_localSet, List.length_cons,
    List.length_nil, Nat.reduceAdd, Nat.reduceLT, if_true, List.set_cons_succ,
    List.set_cons_zero]
  have bytes : (decide (number < 0)).toNat + (decimalBytes number.natAbs).length =
      (numberBytes number).length := by
    rw [numberBytes, List.length_append]
    by_cases below : number < 0
    · rw [decide_eq_true below, if_pos below]
      rfl
    · rw [decide_eq_false below, if_neg below]
      rfl
  rw [bytesOf_toString]
  refine runs_countDigits small ?_
  rw [decimalFrame]
  simp only [runs_localGet, UInt32.reduceToNat, List.getElem?_cons_succ,
    List.getElem?_cons_zero, Option.elim_some, runs_i32Add, runs_localSet, List.length_cons,
    List.length_nil, Nat.reduceAdd, Nat.reduceLT, if_true, List.set_cons_succ,
    List.set_cons_zero]
  rw [Nat.add_comm, bytes]
  have few : (numberBytes number).length ≤ 21 := by
    rw [← bytes]
    have flag := Bool.toNat_le (decide (number < 0))
    omega
  refine @runs_allocate engine _ _ memory _ _ top 5 _
    (stringSize (numberBytes number).length) heap (Nat.lt_of_sub_eq_succ rfl) ?_ ?_ ?_ ?_
  · rw [stringSize, WORD_eq]
    omega
  · intro rest stack post
    exact runs_stringRoom rfl (by omega)
  · intro after reserved fits
    have filling := reserved.filling heap.start
    have room := filling.inside
    have most := length_le_stringSize (numberBytes number).length
    have size' := filling.heap.small
    simp only [Code.headers, seq_cons, seq_nil, List.append_nil, List.cons_append,
      List.nil_append]
    simp (disch := omega) only [runs_localGet, UInt32.reduceToNat, List.getElem?_cons_succ,
      List.getElem?_cons_zero, List.set_cons_succ, List.set_cons_zero, Option.elim_some,
      Nat.add_zero, runs_i64Store, runs_i64ExtendI32S, WORD_eq, UInt32.reduceOfNat, if_pos,
      Memory.size_put]
    have first : Filling engine memory (after.put top ((numberBytes number).length : Int)) top _ :=
      filling.put (le_refl top) (by omega)
    have second : Filling engine memory ((after.put top ((numberBytes number).length : Int)).put
        (top + 8) ((numberBytes number).length : Int)) top _ :=
      first.put (Nat.le_add_right top 8) (by omega)
    have header : ((after.put top ((numberBytes number).length : Int)).put (top + 8)
        ((numberBytes number).length : Int)).read top =
          some ((numberBytes number).length : Int) := by
      apply Memory.read_put_other (by omega)
      exact Memory.read_put (by omega) (by constructor <;> omega)
    have header' : ((after.put top ((numberBytes number).length : Int)).put (top + 8)
        ((numberBytes number).length : Int)).read (top + 8) =
          some ((numberBytes number).length : Int) :=
      Memory.read_put (by rw [Memory.size_put]; omega) (by constructor <;> omega)
    generalize (after.put top ((numberBytes number).length : Int)).put (top + 8)
      ((numberBytes number).length : Int) = now at second header header'
    have room' := second.inside
    have size'' := second.heap.small
    rw [← bytes] at room' most
    have written := @runs_writeNumber engine (Code.answer 5) (Answered (fun after value =>
      value = word64 top ∧ Made engine memory after top (toString number))
        (Full engine top (stringSize (numberBytes number).length))) now [] number number.natAbs 0
      (decimalBytes number.natAbs).length 0 (decide (number < 0)) top small size'' (by omega)
    rw [bytes] at written
    refine written ?_
    intro last held wrote found
    refine (runs_answerAt found (by omega)).2 ⟨rfl, ?_⟩
    have whole : (if decide (number < 0) = true then [45] else []) ++ decimalBytes number.natAbs =
        numberBytes number := by
      rw [numberBytes]
      congr 1
      exact if_congr decide_eq_true_iff rfl rfl
    rw [whole] at wrote
    exact string_written second header header' wrote (bytesOf_toString number)
      (length_toString number)
  · exact fun full => ⟨rfl, full⟩

/-- `to_string` answers with the number written out, in a block of its own, or has no
room. -/
theorem numberText_answers {number : Int} (heap : Heap engine memory top)
    (fits : Fits64 number) :
    Answers engine at_ .numberText memory [word64 number]
      (fun after value => value = word64 top ∧ Made engine memory after top (toString number))
      (Full engine top (stringSize (bytesOf (toString number)).length)) := by
  have size := heap.small
  have start := heap.start
  have inside := heap.inside
  rw [HEAP_START] at start
  show Runs engine Code.numberText.2 ⟨memory, [word64 number, word64 0, word64 0, word32 0,
    word32 0, word32 0, word32 0, word32 0], []⟩ _
  rw [numberText_body]
  have zero : Fits64 0 := by constructor <;> decide
  simp (disch := assumption) only [runs_localGet, UInt32.reduceToNat, List.getElem?_cons_succ,
    List.getElem?_cons_zero, Option.elim_some, runs_i64Const_literal, runs_i64LtS,
    runs_localSet, List.length_cons, List.length_nil, Nat.reduceAdd, Nat.reduceLT, if_true,
    List.set_cons_succ, List.set_cons_zero, runs_i32Eqz_boolean, runs_if]
  have flag : boolean (number < 0) = word32 (decide (number < 0)).toNat := by
    rw [boolean]
    split_ifs with below
    · rw [decide_eq_true below]
      rfl
    · rw [decide_eq_false below]
      rfl
  have written := numberText_written heap fits
  by_cases below : number < 0
  · rw [if_neg (not_not.mpr below), runs_nil, leave_normal, then_normal, flag]
    have same : -(number.natAbs : Int) = number := by omega
    rw [decimalFrame, same] at written
    exact written
  · rw [if_pos below]
    simp only [runs_i64Const_literal, runs_localGet, UInt32.reduceToNat,
      List.getElem?_cons_zero, Option.elim_some, runs_localSet, List.length_cons,
      List.length_nil, Nat.reduceAdd, Nat.reduceLT, if_true, List.set_cons_succ,
      List.set_cons_zero, runs_i64Sub, runs_nil, leave_normal, then_normal, flag]
    have same : -(number.natAbs : Int) = 0 - number := by omega
    rw [decimalFrame, same] at written
    exact written

end Deed.Runtime
