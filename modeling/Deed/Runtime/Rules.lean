import Deed.Wasm.Heap
import Deed.Runtime.Helpers

/-!
# Rules for the pieces of the runtime

One rule for each piece that the helpers are put together from, and the state of
the heap that they share: a bump pointer with nothing but zeros above it.
-/

namespace Deed.Runtime

open Deed.Wasm

variable {engine : Engine} {rest : List Ins} {post : Outcome → Prop}
  {memory after : Memory} {locals stack : List Value} {top : Nat}

@[simp]
theorem BUMP_eq : BUMP = 0 := rfl

@[simp]
theorem WORD_eq : WORD = 8 := rfl

@[simp]
theorem TEXT_eq : TEXT = 16 := rfl

@[simp]
theorem ELEMENTS_eq : ELEMENTS = 8 := rfl

@[simp]
theorem PAYLOAD_eq : PAYLOAD = 8 := rfl

@[simp]
theorem PAGE_eq : PAGE = 65536 := rfl

@[simp]
theorem aggregateSize_result : aggregateSize true 1 = 16 := rfl

/-! ## The heap -/

/-- What is in memory up to `top`, but for the bump pointer, is still there. -/
structure Kept (memory after : Memory) (top : Nat) : Prop where
  bytes : ∀ address, 8 ≤ address → address < top → after.bytes address = memory.bytes address
  size : memory.size ≤ after.size

theorem Kept.refl (memory : Memory) (top : Nat) : Kept memory memory top :=
  ⟨fun _ _ _ => rfl, Nat.le_refl _⟩

theorem Kept.trans {last : Memory} {higher : Nat} (first : Kept memory after top)
    (second : Kept after last higher) (above : top ≤ higher) : Kept memory last top where
  bytes := by
    intro address reserved below
    rw [second.bytes address reserved (by omega), first.bytes address reserved below]
  size := first.size.trans second.size

theorem Kept.put {address : Nat} {number : Int} (kept : Kept memory after top)
    (above : top ≤ address) : Kept memory (after.put address number) top where
  bytes := by
    intro at_ reserved below
    rw [Memory.bytes_put_other (by omega)]
    exact kept.bytes at_ reserved below
  size := by
    rw [Memory.size_put]
    exact kept.size

theorem Kept.read {address : Nat} {number : Int} (kept : Kept memory after top)
    (reserved : 8 ≤ address) (below : address + 8 ≤ top)
    (reads : memory.read address = some number) : after.read address = some number :=
  Memory.read_congr kept.size
    (fun at_ above under => kept.bytes at_ (by omega) (by omega)) reads

/-- The bump pointer is at `top`, inside the memory, and everything from there on is
zero. -/
structure Heap (engine : Engine) (memory : Memory) (top : Nat) : Prop where
  bump : memory.read BUMP = some (top : Int)
  start : HEAP_START ≤ top
  inside : top ≤ memory.size
  pages : memory.pages ≤ engine.ceiling
  blank : ∀ address, top ≤ address → memory.bytes address = 0

theorem Heap.small (heap : Heap engine memory top) : memory.size ≤ 2 ^ 30 := by
  have most := engine.small
  have pages := heap.pages
  rw [Memory.size, page]
  omega

/-- How many pages more it takes for the memory to reach an address. -/
def pagesShort (memory : Memory) (reached : Nat) : Nat :=
  (reached + (page - 1)) / page - memory.pages

/-- The memory after an allocation of `room` bytes. -/
def reserve (memory : Memory) (top room : Nat) : Memory :=
  (memory.put BUMP (top + room : Nat)).grow (pagesShort memory (top + room))

theorem size_grow {more : Nat} : (memory.grow more).size = memory.size + more * page :=
  Nat.add_mul _ _ _

theorem bytes_grow {more : Nat} : (memory.grow more).bytes = memory.bytes := rfl

theorem size_reserve {room : Nat} : top + room ≤ (reserve memory top room).size := by
  rw [reserve, size_grow, Memory.size_put, Memory.size, pagesShort]
  generalize pages : memory.pages = count
  rw [page]
  omega

theorem bytes_reserve {room address : Nat} (reserved : 8 ≤ address) :
    (reserve memory top room).bytes address = memory.bytes address := by
  rw [reserve, bytes_grow]
  exact Memory.bytes_put_other (by rw [BUMP_eq]; omega)

theorem Kept.reserve {room : Nat} (kept : Kept memory after top) :
    Kept memory (reserve after top room) top where
  bytes := by
    intro address reserved below
    rw [bytes_reserve reserved]
    exact kept.bytes address reserved below
  size := by
    have more : after.size ≤ (Runtime.reserve after top room).size := by
      rw [Runtime.reserve, size_grow, Memory.size_put]
      exact Nat.le_add_right _ _
    exact kept.size.trans more

/-- Allocating moves the bump pointer, and what it moves past is zero. -/
theorem Heap.reserve {room : Nat} (heap : Heap engine memory top)
    (fits : top + room ≤ engine.ceiling * page) :
    Heap engine (reserve memory top room) (top + room) where
  bump := by
    have small := engine.small
    have start := heap.start
    have inside := heap.inside
    rw [HEAP_START] at start
    have placed : (memory.put BUMP (top + room : Nat)).read BUMP =
        some ((top + room : Nat) : Int) := by
      apply Memory.read_put
      · rw [BUMP_eq]
        omega
      · rw [page] at fits
        constructor <;> omega
    rw [Runtime.reserve]
    refine Memory.read_congr ?_ (fun at_ _ _ => congrFun bytes_grow at_) placed
    rw [size_grow]
    exact Nat.le_add_right _ _
  start := heap.start.trans (Nat.le_add_right _ _)
  inside := size_reserve
  pages := by
    have pages := heap.pages
    have grown : (Runtime.reserve memory top room).pages =
        memory.pages + pagesShort memory (top + room) :=
      congrArg (· + _) Memory.pages_put
    rw [grown, pagesShort]
    rw [page] at fits ⊢
    omega
  blank := by
    intro address above
    have start := heap.start
    rw [HEAP_START] at start
    rw [bytes_reserve (by omega)]
    exact heap.blank address (by omega)

/-! ## Growing and allocating -/

theorem grow_grow {more further : Nat} :
    (memory.grow more).grow further = memory.grow (more + further) := by
  have pages : memory.pages + more + further = memory.pages + (more + further) :=
    Nat.add_assoc _ _ _
  rw [Memory.grow, Memory.grow, Memory.grow]
  congr 1

theorem read_grow {address more : Nat} {number : Int}
    (reads : memory.read address = some number) :
    (memory.grow more).read address = some number := by
  refine Memory.read_congr ?_ (fun at_ _ _ => congrFun bytes_grow at_) reads
  rw [size_grow]
  exact Nat.le_add_right _ _

section Growing

variable {reached : Nat}

theorem runs_pastTheEnd (bump : memory.read BUMP = some (reached : Int))
    (pages : memory.pages < 2 ^ 31) (fits : reached < 2 ^ 62) :
    Runs engine (pastTheEnd ++ rest) ⟨memory, locals, stack⟩ post ↔
      Runs engine rest ⟨memory, locals, boolean (memory.size < reached) :: stack⟩ post := by
  have same : ((memory.pages : Int) * 65536 < reached) ↔ memory.size < reached := by
    rw [Memory.size, page]
    omega
  rw [BUMP_eq] at bump
  have wide : Fits64 reached := by constructor <;> omega
  have wide' : Fits64 (memory.pages * 65536) := by constructor <;> omega
  simp (disch := first | assumption | omega) [pastTheEnd, bump, boolean_congr same]

/-- One more page, or a trap when the engine would rather not. -/
theorem runs_growOnce (pages : memory.pages < 2 ^ 31)
    {round : Memory → List Value → Prop}
    (continues : memory.pages + 1 ≤ engine.ceiling → round (memory.grow 1) locals)
    (refused : engine.ceiling < memory.pages + 1 → post (.trapped .unreachable)) :
    Runs engine [.i32Const 1, .memoryGrow, .i32Const (-1), .i32Eq,
        .if_ none [.unreachable] [], .br 0] ⟨memory, locals, []⟩
      (Outcome.Looped engine stack rest post round) := by
  by_cases room : memory.pages + 1 ≤ engine.ceiling
  · simp (disch := omega) [runs_memoryGrow_one, room, continues room]
  · simp [runs_memoryGrow_one, room, refused (by omega)]

/-- The memory grows until the bump pointer is inside it, or the engine refuses. -/
theorem runs_growToFit (bump : memory.read BUMP = some (reached : Int))
    (pages : memory.pages ≤ engine.ceiling) (fits : reached < 2 ^ 62)
    (continues : reached ≤ engine.ceiling * page →
      Runs engine rest ⟨memory.grow (pagesShort memory reached), locals, stack⟩ post)
    (refused : engine.ceiling * page < reached → post (.trapped .unreachable)) :
    Runs engine (growToFit ++ rest) ⟨memory, locals, stack⟩ post := by
  have small := engine.small
  rw [growToFit, seq_cons, seq_cons, seq_nil, List.append_nil, List.append_assoc,
    runs_pastTheEnd bump (by omega) fits, List.singleton_append, runs_if]
  by_cases past : memory.size < reached
  · rw [if_pos past, seq_cons, seq_cons, seq_nil, List.append_nil]
    refine runs_loop_alone
      (fun left grown held => ∃ more, more + left = pagesShort memory reached ∧
        more ≤ engine.ceiling - memory.pages ∧ grown = memory.grow more ∧ held = locals)
      ⟨0, Nat.zero_add _, Nat.zero_le _, rfl, rfl⟩ ?_
    rintro left _ _ ⟨more, whole, room, rfl, rfl⟩
    have grownPages : (memory.grow more).pages = memory.pages + more := rfl
    have size : (memory.grow more).size = (memory.pages + more) * 65536 := rfl
    rw [runs_pastTheEnd (read_grow bump) (by omega) fits, runs_i32Eqz_boolean, runs_brIf,
      size]
    have count := whole
    rw [pagesShort, page] at count
    by_cases further : (memory.pages + more) * 65536 < reached
    · rw [if_neg (not_not.2 further)]
      apply runs_growOnce (by omega)
      · intro fits
        exact ⟨left - 1, by omega, more + 1, by omega, by omega, grow_grow, rfl⟩
      · intro most
        have reaches : engine.ceiling ≤ memory.pages + more := by
          rw [grownPages] at most
          exact Nat.lt_succ_iff.1 most
        exact refused (Nat.lt_of_le_of_lt (Nat.mul_le_mul_right page reaches) further)
    · rw [if_pos further]
      have last : more = pagesShort memory reached := by omega
      rw [last]
      apply continues
      rw [page]
      omega
  · rw [if_neg past, runs_nil, leave_normal, then_normal]
    have none_ : pagesShort memory reached = 0 := by
      rw [pagesShort]
      rw [Memory.size] at past
      rw [page] at past ⊢
      omega
    rw [none_] at continues
    apply continues
    have most := Nat.mul_le_mul_right page pages
    rw [Memory.size] at past
    omega

end Growing

/-- The memory after an allocation of `room` bytes from `top`: the heap ends further up,
and the block in between is zero. -/
structure Reserved (engine : Engine) (memory after : Memory) (top room : Nat) : Prop where
  heap : Heap engine after (top + room)
  kept : Kept memory after top
  blank : ∀ address, top ≤ address → after.bytes address = 0

theorem Heap.reserved {room : Nat} (heap : Heap engine memory top)
    (fits : top + room ≤ engine.ceiling * page) :
    Reserved engine memory (Runtime.reserve memory top room) top room where
  heap := heap.reserve fits
  kept := (Kept.refl memory top).reserve
  blank := by
    intro address above
    have start := heap.start
    rw [HEAP_START] at start
    rw [bytes_reserve (by omega)]
    exact heap.blank address above

/-- Allocating goes on with a block of its own, or traps when the engine has no room. -/
theorem runs_allocate {out : UInt32} {size : List Ins} {room : Nat}
    (heap : Heap engine memory top) (outIn : out.toNat < locals.length)
    (small : room < 2 ^ 40)
    (pushes : ∀ rest stack post,
      Runs engine (size ++ rest) ⟨memory, locals.set out.toNat (word32 top), stack⟩ post ↔
      Runs engine rest ⟨memory, locals.set out.toNat (word32 top), word64 room :: stack⟩
        post)
    (continues : ∀ after, Reserved engine memory after top room →
      top + room ≤ engine.ceiling * page →
      Runs engine rest ⟨after, locals.set out.toNat (word32 top), stack⟩ post)
    (refused : engine.ceiling * page < top + room → post (.trapped .unreachable)) :
    Runs engine (allocate out size ++ rest) ⟨memory, locals, stack⟩ post := by
  have most := heap.small
  have inside := heap.inside
  have start := heap.start
  rw [HEAP_START] at start
  have bump := heap.bump
  rw [BUMP_eq] at bump
  have found : (locals.set out.toNat (word32 top))[out.toNat]? = some (word32 top) :=
    List.getElem?_set_self outIn
  have reached : ((top : Int) + (room : Int)) = ((top + room : Nat) : Int) := by push_cast; rfl
  have placed : (memory.put BUMP (top + room : Nat)).read BUMP =
      some ((top + room : Nat) : Int) := by
    apply Memory.read_put
    · rw [BUMP_eq]
      omega
    · constructor <;> omega
  have within : 0 + 8 ≤ memory.size := by omega
  simp (disch := omega) only [allocate, seq_cons, seq_nil, List.append_nil,
    List.append_assoc, List.cons_append, List.nil_append, BUMP_eq, runs_i32Const,
    runs_i64Load, UInt32.reduceToNat, Nat.add_zero, bump, Option.elim_some,
    runs_i32WrapI64, runs_localSet, outIn, if_true, runs_localGet, found,
    runs_i64ExtendI32S, pushes, runs_i64Add, runs_i64Store, within, reached]
  apply runs_growToFit placed
  · rw [Memory.pages_put]
    exact heap.pages
  · omega
  · intro fits
    have same : pagesShort (memory.put BUMP (top + room : Nat)) (top + room) =
        pagesShort memory (top + room) := by
      rw [pagesShort, Memory.pages_put, pagesShort]
    rw [same]
    exact continues _ (heap.reserved fits) fits
  · exact refused

/-! ## Rooms, counters and loops -/

theorem room_of_string (bytes : Nat) :
    16 + (bytes : Int) + (8 - (bytes : Int).tmod 8).tmod 8 = (stringSize bytes : Nat) := by
  have nonneg : 0 ≤ 8 - (bytes : Int) % 8 := by omega
  rw [Int.tmod_eq_emod_of_nonneg (Int.natCast_nonneg bytes),
    Int.tmod_eq_emod_of_nonneg nonneg, stringSize, WORD]
  omega

theorem runs_stringRoom {slot : UInt32} {bytes : Nat}
    (found : locals[slot.toNat]? = some (word32 bytes)) (small : bytes < 2 ^ 31) :
    Runs engine (stringRoom slot ++ rest) ⟨memory, locals, stack⟩ post ↔
      Runs engine rest ⟨memory, locals, word64 (stringSize bytes : Nat) :: stack⟩ post := by
  have eight : Fits64 8 := by constructor <;> decide
  have wide : Fits64 bytes := by constructor <;> omega
  have left : Fits64 (8 - (bytes : Int).tmod 8) := by
    rw [Int.tmod_eq_emod_of_nonneg (Int.natCast_nonneg bytes)]
    constructor <;> omega
  rw [← room_of_string]
  simp (disch := first | assumption | omega) [stringRoom, found]

theorem runs_listRoom {slot : UInt32} {count : Nat}
    (found : locals[slot.toNat]? = some (word32 count)) (small : count < 2 ^ 31) :
    Runs engine (listRoom slot ++ rest) ⟨memory, locals, stack⟩ post ↔
      Runs engine rest ⟨memory, locals, word64 (listSize count : Nat) :: stack⟩ post := by
  have room : 8 + (count : Int) * 8 = (listSize count : Nat) := by
    rw [listSize, WORD]
    push_cast
    rfl
  rw [← room]
  simp (disch := omega) [listRoom, found]

/-- The pieces that a loop ends with. -/
def nextTurn (counter : UInt32) : List Ins := increment counter ++ [.br 0]

theorem runs_nextTurn {counter : UInt32} {count : Nat} {outer : List Value}
    {round : Memory → List Value → Prop}
    (found : locals[counter.toNat]? = some (word32 count)) :
    Runs engine (nextTurn counter) ⟨memory, locals, stack⟩
        (Outcome.Looped engine outer rest post round) ↔
      round memory (locals.set counter.toNat (word32 (count + 1))) := by
  have inside : counter.toNat < locals.length := (List.getElem?_eq_some_iff.1 found).1
  simp only [nextTurn, increment, List.cons_append, List.nil_append, runs_localGet, found,
    Option.elim_some, runs_i32Const_literal, runs_i32Add, runs_localSet, inside, if_true,
    runs_br, UInt32.reduceToNat, looped_again]

/-- A counter from zero to a limit: the invariant holds at the start, each turn takes it
from one count to the next, and the rest of the code goes on from the limit. -/
theorem runs_countTo {counter limit : UInt32} {body : List Ins} (bound : Nat)
    (invariant : Nat → Memory → List Value → Prop) (small : bound < 2 ^ 31)
    (counterIn : counter.toNat < locals.length)
    (start : invariant 0 memory (locals.set counter.toNat (word32 0)))
    (counts : ∀ count memory locals, invariant count memory locals →
      locals[counter.toNat]? = some (word32 count) ∧
        locals[limit.toNat]? = some (word32 bound))
    (turn : ∀ count memory locals, count < bound → invariant count memory locals →
      Runs engine (body ++ nextTurn counter) ⟨memory, locals, []⟩
        (Outcome.Looped engine stack rest post (invariant (count + 1))))
    (finish : ∀ memory locals, invariant bound memory locals →
      Runs engine rest ⟨memory, locals, stack⟩ post) :
    Runs engine (countTo counter limit body ++ rest) ⟨memory, locals, stack⟩ post := by
  rw [countTo, List.cons_append, List.cons_append, runs_i32Const_literal, runs_localSet,
    if_pos counterIn]
  refine runs_block_loop (fun left memory locals => ∃ count, count + left = bound ∧
    invariant count memory locals) ⟨0, Nat.zero_add bound, start⟩ ?_
  rintro left memory locals ⟨count, whole, holds⟩
  rcases counts count memory locals holds with ⟨foundCounter, foundLimit⟩
  rw [seq_cons, seq_cons, seq_cons, seq_cons, seq_nil, List.append_nil]
  simp (disch := omega) only [List.cons_append, List.nil_append, runs_localGet,
    foundCounter, foundLimit, Option.elim_some, runs_i32GeS, runs_brIf]
  by_cases done : bound ≤ count
  · have last : count = bound := by omega
    rw [if_pos done]
    rw [last] at holds
    exact finish memory locals holds
  · rw [if_neg done]
    apply (turn count memory locals (by omega) holds).mono
    intro outcome comes
    rcases outcome with next | ⟨_ | _ | depth, next⟩ | next | trap
    case branch.zero => exact ⟨left - 1, by omega, count + 1, by omega, comes⟩
    all_goals exact comes

/-- A loop that goes on while a condition holds, with a counter that the loop moves. -/
theorem runs_walkWhile {counter : UInt32} {keep body : List Ins}
    (invariant : Nat → Memory → List Value → Prop) {left : Nat}
    (start : invariant left memory locals)
    (turn : ∀ left memory locals, invariant left memory locals →
      Runs engine (keep ++ ([.i32Eqz, .brIf 1] ++ (body ++ nextTurn counter)))
        ⟨memory, locals, []⟩
        (Outcome.Looped engine stack rest post fun memory locals =>
          ∃ less, less < left ∧ invariant less memory locals)) :
    Runs engine (walkWhile counter keep body ++ rest) ⟨memory, locals, stack⟩ post := by
  rw [walkWhile, List.singleton_append, seq_cons, seq_cons, seq_cons, seq_cons, seq_cons,
    seq_nil, List.append_nil]
  exact runs_block_loop invariant start turn

end Deed.Runtime
