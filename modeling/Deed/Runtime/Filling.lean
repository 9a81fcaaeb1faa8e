import Deed.Runtime.Decimal
import Deed.Runtime.Numbers

/-!
# Filling a list

The loop that fills the elements of a list in a block of its own, and what the instructions
do to a count that does not fit an `i32`.
-/

namespace Deed.Runtime

open Deed.Wasm

variable {engine : Engine} {rest : List Ins} {post : Outcome → Prop}
  {memory after now : Memory} {locals stack : List Value} {top address room : Nat}
  {at_ : Where Helper} {text other : String}

/-! ## Numbers that do not fit -/

/-- Narrowing keeps the lowest bits of any number. -/
theorem runs_i32WrapI64_any {number : Int} :
    Runs engine (.i32WrapI64 :: rest) ⟨memory, locals, word64 number :: stack⟩ post ↔
      Runs engine rest ⟨memory, locals, word32 (number % 2 ^ 32).toNat :: stack⟩ post := by
  have narrowed : word32 (number % 2 ^ 32).toNat = .i32 (Int64.ofInt number).toInt32 := by
    have low : ((number % 2 ^ 32).toNat : Int) = number % 2 ^ 32 := by omega
    rw [Int64.toInt32_ofInt, word32, ← Int32.ofInt_eq_ofNat, low]
    congr 1
    rw [Int32.ofInt_eq_iff_bmod_eq_toInt, Int32.toInt_ofInt]
    exact Int.emod_bmod number (2 ^ 32)
  rw [runs_plain rfl, narrowed]
  rfl

theorem toInt_ofNat_high {number : Nat} (low : 2 ^ 31 ≤ number) (high : number < 2 ^ 32) :
    (Int32.ofNat number).toInt = (number : Int) - 2 ^ 32 := by
  have moved : Int32.ofNat number = Int32.ofInt ((number : Int) - 2 ^ 32) := by
    rw [← Int32.ofInt_eq_ofNat, Int32.ofInt_eq_iff_bmod_eq_toInt, Int32.toInt_ofInt]
    exact (Int.sub_bmod_right number (2 ^ 32)).symm
  rw [moved]
  exact Int32.toInt_ofInt_of_le (by omega) (by omega)

/-- The upper half of the `i32` values is below zero. -/
theorem runs_i64ExtendI32S_high {number : Nat} (low : 2 ^ 31 ≤ number)
    (high : number < 2 ^ 32) :
    Runs engine (.i64ExtendI32S :: rest) ⟨memory, locals, word32 number :: stack⟩ post ↔
      Runs engine rest ⟨memory, locals, word64 ((number : Int) - 2 ^ 32) :: stack⟩ post := by
  have widened : word64 ((number : Int) - 2 ^ 32) = .i64 (Int32.ofNat number).toInt64 := by
    rw [word64, ← toInt_ofNat_high low high, Int64.ofInt_int32ToInt]
  rw [runs_plain rfl, widened]
  rfl

theorem runs_i32GeS_high {number : Nat} (low : 2 ^ 31 ≤ number) (high : number < 2 ^ 32) :
    Runs engine (.i32GeS :: rest) ⟨memory, locals, word32 number :: word32 0 :: stack⟩ post ↔
      Runs engine rest ⟨memory, locals, boolean True :: stack⟩ post := by
  have above : Int32.ofNat number ≤ Int32.ofNat 0 ↔ True := by
    rw [Int32.le_iff_toInt_le, toInt_ofNat_high low high]
    have zero : (Int32.ofNat 0).toInt = 0 := rfl
    rw [zero, iff_true]
    omega
  rw [runs_plain rfl, ← boolean_congr above]
  rfl

/-! ## Filling the elements -/

/-- What is read back from a word is what an `i64` holds. -/
theorem fits_of_read {number : Int} (reads : memory.read address = some number) :
    Fits64 number := by
  rw [Memory.read, Option.map_eq_some_iff] at reads
  obtain ⟨value, -, rfl⟩ := reads
  exact ⟨value.le_toInt, value.toInt_lt⟩

theorem ListAt.fits {words : List Int} (list : ListAt memory address words) :
    ∀ word ∈ words, Fits64 word := by
  intro word member
  obtain ⟨index, below, rfl⟩ := List.mem_iff_getElem.mp member
  exact fits_of_read (list.elements index below)

/-- The loop writes each word that `push` pushes where the element goes. -/
theorem runs_fillWords {index limit out : UInt32} {push : List Ins} {words : List Int}
    {header : Int} (filling : Filling engine memory now top room)
    (headed : now.read top = some header) (inside : 8 + words.length * 8 ≤ room)
    (fits : ∀ word ∈ words, Fits64 word) (indexIn : index.toNat < locals.length)
    (outs : ∀ count, (locals.set index.toNat (word32 count))[out.toNat]? = some (word32 top))
    (limits : ∀ count, (locals.set index.toNat (word32 count))[limit.toNat]? =
      some (word32 words.length))
    (pushes : ∀ (count : Nat) (below : count < words.length) (after : Memory),
      Kept memory after top → ∀ (rest : List Ins) (stack : List Value)
        (post : Outcome → Prop),
      Runs engine (push ++ rest) ⟨after, locals.set index.toNat (word32 count), stack⟩ post ↔
        Runs engine rest
          ⟨after, locals.set index.toNat (word32 count), word64 words[count] :: stack⟩ post)
    (continues : ∀ after, Filling engine memory after top room →
      after.read top = some header →
      (∀ index (below : index < words.length),
        after.read (top + 8 + index * 8) = some words[index]) →
      Runs engine rest ⟨after, locals.set index.toNat (word32 words.length), stack⟩ post) :
    Runs engine (countTo index limit (elementAt out index ++ (push ++ [.i64Store 0])) ++ rest)
      ⟨now, locals, stack⟩ post := by
  have small := filling.heap.small
  have within := filling.inside
  refine runs_countTo words.length (fun count after held =>
      Filling engine memory after top room ∧ after.read top = some header ∧
        (∀ index (below : index < words.length), index < count →
          after.read (top + 8 + index * 8) = some words[index]) ∧
          held = locals.set index.toNat (word32 count))
    (by omega) indexIn ⟨filling, headed, fun _ _ none_ => absurd none_ (Nat.not_lt_zero _), rfl⟩
    ?_ ?_ ?_
  · rintro count after held ⟨-, -, -, rfl⟩
    exact ⟨List.getElem?_set_self indexIn, limits count⟩
  · rintro count after held below ⟨filling', headed', written, rfl⟩
    have counted : (locals.set index.toNat (word32 count))[index.toNat]? =
        some (word32 count) := List.getElem?_set_self indexIn
    have within' := filling'.inside
    have small' := filling'.heap.small
    rw [List.append_assoc, List.append_assoc, runs_elementAt (outs count) counted,
      pushes count below after filling'.kept, List.cons_append, List.nil_append,
      runs_i64Store (by omega)]
    simp only [UInt32.reduceToNat, Nat.add_zero]
    rw [if_pos (by omega), runs_nextTurn counted, List.set_set]
    refine ⟨filling'.put (by omega) (by omega), ?_, ?_, rfl⟩
    · exact Memory.read_put_other (by omega) headed'
    · intro index' below' under
      rcases Nat.lt_succ_iff_lt_or_eq.1 under with before | rfl
      · exact Memory.read_put_other (by omega) (written index' below' before)
      · exact Memory.read_put (by omega) (fits _ (List.getElem_mem below'))
  · rintro after held ⟨filling', headed', written, rfl⟩
    exact continues after filling' headed' fun index below => written index below below

/-- A block with the length and the elements of a list in it holds the list. -/
theorem Filling.list {words : List Int}
    (filling : Filling engine memory now top (listSize words.length))
    (headed : now.read top = some (words.length : Int))
    (written : ∀ index (below : index < words.length),
      now.read (top + 8 + index * 8) = some words[index]) : ListAt now top words := by
  have start := filling.start
  rw [HEAP_START] at start
  exact ⟨headed, filling.inside, written, by omega⟩

/-! ## A room below zero -/

/-- A bump pointer that is inside the memory grows nothing. -/
theorem runs_growToFit_inside {reached : Int} (bump : memory.read BUMP = some reached)
    (pages : memory.pages < 2 ^ 31) (inside : reached ≤ memory.size) :
    Runs engine (growToFit ++ rest) ⟨memory, locals, stack⟩ post ↔
      Runs engine rest ⟨memory, locals, stack⟩ post := by
  have fits : Fits64 reached := fits_of_read bump
  have wide : Fits64 (memory.pages * 65536) := by constructor <;> omega
  have within : ¬((memory.pages : Int) * 65536 < reached) := by
    rw [Memory.size, page] at inside
    omega
  rw [BUMP_eq] at bump
  rw [growToFit, seq_cons, seq_cons, seq_nil, List.append_nil, List.append_assoc]
  simp (disch := first | assumption | omega) [pastTheEnd, bump, within]

/-- A room below zero takes the bump pointer back, and grows nothing. -/
theorem runs_allocate_back {out : UInt32} {size : List Ins} {less : Nat}
    (heap : Heap engine memory top) (outIn : out.toNat < locals.length)
    (small : less < 2 ^ 40)
    (pushes : ∀ (rest : List Ins) (stack : List Value) (post : Outcome → Prop),
      Runs engine (size ++ rest) ⟨memory, locals.set out.toNat (word32 top), stack⟩ post ↔
        Runs engine rest
          ⟨memory, locals.set out.toNat (word32 top), word64 (-(less : Int)) :: stack⟩ post)
    (continues : Runs engine rest
      ⟨memory.put BUMP (top - less : Int), locals.set out.toNat (word32 top), stack⟩ post) :
    Runs engine (allocate out size ++ rest) ⟨memory, locals, stack⟩ post := by
  have most := heap.small
  have inside := heap.inside
  have start := heap.start
  have pages := heap.pages
  have ceiling := engine.small
  rw [HEAP_START] at start
  have bump := heap.bump
  rw [BUMP_eq] at bump
  have found : (locals.set out.toNat (word32 top))[out.toNat]? = some (word32 top) :=
    List.getElem?_set_self outIn
  have reached : ((top : Int) + -(less : Int)) = (top : Int) - less := rfl
  have placed : (memory.put BUMP ((top : Int) - less)).read BUMP = some ((top : Int) - less) := by
    apply Memory.read_put
    · rw [BUMP_eq]
      omega
    · constructor <;> omega
  have within : 0 + 8 ≤ memory.size := by omega
  simp (disch := omega) only [allocate, seq_cons, seq_nil, List.append_nil,
    List.append_assoc, List.cons_append, List.nil_append, BUMP_eq, runs_i32Const,
    runs_i64Load, UInt32.reduceToNat, Nat.add_zero, bump, Option.elim_some,
    runs_i32WrapI64, runs_localSet, outIn, if_true, runs_localGet, found,
    runs_i64ExtendI32S, pushes, runs_i64Add, runs_i64Store, within, reached]
  refine (runs_growToFit_inside placed ?_ ?_).2 continues
  · rw [Memory.pages_put]
    omega
  · rw [Memory.size_put]
    omega

/-- A count in the upper half takes a room below zero. -/
theorem runs_listRoom_high {slot : UInt32} {count : Nat}
    (found : locals[slot.toNat]? = some (word32 count)) (low : 2 ^ 31 ≤ count)
    (high : count < 2 ^ 32) :
    Runs engine (listRoom slot ++ rest) ⟨memory, locals, stack⟩ post ↔
      Runs engine rest ⟨memory, locals,
        word64 (-(((2 ^ 32 - count) * 8 - 8 : Nat) : Int)) :: stack⟩ post := by
  have room : -(((2 ^ 32 - count) * 8 - 8 : Nat) : Int) = 8 + ((count : Int) - 2 ^ 32) * 8 := by
    omega
  rw [room]
  simp (disch := assumption) [listRoom, found, runs_i64ExtendI32S_high]

/-! ## Sentences put together -/

/-- The heap has grown by what holds a text. -/
structure Grown (engine : Engine) (memory after : Memory) (top higher address : Nat)
    (text : String) : Prop where
  heap : Heap engine after higher
  stands : Stands after higher address text
  kept : Kept memory after top
  above : top ≤ higher

theorem Made.grown (made : Made engine memory after top text) :
    Grown engine memory after top (top + stringSize (bytesOf text).length) top text :=
  ⟨made.heap, made.stands, made.kept, Nat.le_add_right _ _⟩

/-- One text after another, or no room for both. -/
theorem runs_joinGrown {left right : Nat} (linked : Linked engine at_ .joinedText)
    (heap : Heap engine memory top) (first : Stands memory top left text)
    (second : Stands memory top right other) (full : post (.trapped .unreachable))
    (continues : ∀ after higher, Grown engine memory after top higher top (text ++ other) →
      Runs engine rest ⟨after, locals, word64 top :: stack⟩ post) :
    Runs engine (at_.call .joinedText :: rest)
      ⟨memory, locals, word64 right :: word64 left :: stack⟩ post := by
  apply runs_join linked heap first second
  · intro after made
    exact continues after _ made.grown
  · rintro trap ⟨rfl, -⟩
    exact full

/-- A number written out, or no room for it. -/
theorem runs_numberGrown {number : Int} (linked : Linked engine at_ .numberText)
    (heap : Heap engine memory top) (fits : Fits64 number)
    (full : post (.trapped .unreachable))
    (continues : ∀ after higher, Grown engine memory after top higher top (toString number) →
      Runs engine rest ⟨after, locals, word64 top :: stack⟩ post) :
    Runs engine (at_.call .numberText :: rest)
      ⟨memory, locals, word64 number :: stack⟩ post := by
  have called : Answers engine at_ .numberText memory [word64 number] _ _ :=
    numberText_answers heap fits
  refine runs_call_helper linked rfl rfl called ?_ ?_
  · rintro after value ⟨rfl, made⟩
    exact continues after _ made.grown
  · rintro trap ⟨rfl, -⟩
    exact full

end Deed.Runtime
