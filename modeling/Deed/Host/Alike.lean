import Deed.Host.Unforgeable

/-!
# The two hosts answer alike

The host of a set of grants and the interpreter with the same, side by side: in every run
of narrowings and operations whose answers find room, what the host writes into the
module's memory is the interpreter's value.
-/

namespace Deed.Host

open Deed.Wasm Deed.Rt Deed.Runtime
open Deed.Interp (Operation performIo)

variable {World : Type} {held more : List Held} {memory after : Memory} {low lower top higher place : Nat}
  {word : Value} {value : Interp.Value} {found : Text}

/-! ## Values in memory -/

theorem bytesOf_ofList (text : Text) : bytesOf (String.ofList text) = asBytes text := by
  rw [bytesOf, String.toUTF8_eq_toByteArray, String.toByteArray_ofList, List.utf8Encode,
    List.toList_data_toByteArray, asBytes]

/-- The string at an address, as the list of its characters, between two others. -/
structure TextAt (memory : Memory) (low top place : Nat) (text : Text) : Prop where
  string : StringAt memory place (String.ofList text)
  above : low ≤ place
  below : place + Runtime.stringSize (asBytes text).length ≤ top

/-- The word stands for a value: a number, a handle, or the address of something that is the
value, all of it between two addresses. -/
inductive Stands (held : List Held) (memory : Memory) (low top : Nat) :
    Value → Interp.Value → Prop
  | unit (word : Value) : Stands held memory low top word .unit
  | int (number : Int64) : Stands held memory low top (.i64 number) (.int number.toInt)
  | str {place : Nat} {text : Text} :
      TextAt memory low top place text → Stands held memory low top (address place) (.str text)
  | list {place : Nat} {places : List Nat} {texts : List Text} :
      ListAt memory place (places.map (↑)) → low ≤ place → place + Runtime.listSize places.length ≤ top →
      List.Forall₂ (fun place text => TextAt memory low top place text) places texts →
      Stands held memory low top (address place) (.list (texts.map .str))
  | capability {word : Value} {what : Held} :
      standsFor held (some word) = some what →
      Stands held memory low top word (.capability what.capability)
  | result {place : Nat} {word : Value} {ok : Bool} {value : Interp.Value} :
      memory.read place = some (tagOf ok).toInt →
      memory.read (place + 8) = some (asI64 word).toInt → 8 ≤ place → low ≤ place →
      place + 16 ≤ top →
      Stands held memory low top word value →
      Stands held memory low top (address place) (.result ok value)

theorem TextAt.kept (text : TextAt memory low top place found) (kept : Kept memory after top)
    (under : lower ≤ low) (above : top ≤ higher) : TextAt after lower higher place found := by
  refine ⟨text.string.kept kept ?_, under.trans text.above, text.below.trans above⟩
  rw [bytesOf_ofList]
  exact text.below

theorem TextAt.weaken (text : TextAt memory low top place found) (under : lower ≤ low)
    (above : top ≤ higher) : TextAt memory lower higher place found :=
  ⟨text.string, under.trans text.above, text.below.trans above⟩

theorem standsFor_front {what : Held} {argument : Option Value} (front : held <+: more)
    (stands : standsFor held argument = some what) : standsFor more argument = some what := by
  rcases standsFor_eq_some.mp stands with ⟨value, index, passed, number, there⟩
  rcases front with ⟨rest, rfl⟩
  refine standsFor_eq_some.mpr ⟨value, index, passed, number, ?_⟩
  rw [List.getElem?_append_left (List.getElem?_eq_some_iff.mp there).1]
  exact there

/-- What stands for a value goes on standing for it: nothing below the bump pointer moves. -/
theorem Stands.kept (stands : Stands held memory low top word value)
    (kept : Kept memory after top) (under : lower ≤ low) (above : top ≤ higher)
    (front : held <+: more) : Stands more after lower higher word value := by
  induction stands with
  | unit word => exact .unit word
  | int number => exact .int number
  | str text => exact .str (text.kept kept under above)
  | list list above_ below texts =>
      refine .list (list.kept kept (by rwa [List.length_map])) (under.trans above_)
        (below.trans above) ?_
      exact texts.imp fun _ _ text => text.kept kept under above
  | capability stands => exact .capability (standsFor_front front stands)
  | result tag field start above_ below _ ih =>
      exact .result (kept.read start (by omega) tag) (kept.read (by omega) (by omega) field) start
        (under.trans above_) (below.trans above) ih

/-! ## Writing a value -/

/-- The bump pointer is in the memory, above what is reserved. -/
structure Bumped (memory : Memory) (top : Nat) : Prop where
  bump : memory.read 0 = some (top : Int)
  start : HEAP_START ≤ top
  inside : top ≤ memory.size
  small : memory.size ≤ 2 ^ 32

/-- How much of the memory a value takes when it is written out. -/
def roomOf : Interp.Value → Nat
  | .str text => Runtime.stringSize (asBytes text).length
  | .list elements =>
      ((textsOf elements).map fun text => Runtime.stringSize (asBytes text).length).sum +
        Runtime.listSize (textsOf elements).length
  | .result _ value => roomOf value + 16
  | _ => 0

/-- The memory after some of it was taken and written to. -/
structure Grown (memory after : Memory) (top room : Nat) : Prop where
  bumped : Bumped after (top + room)
  size : after.size = memory.size
  kept : Kept memory after top

theorem kept_bump {number : Int} : Kept memory (memory.put 0 number) top where
  bytes := fun address reserved below => Memory.bytes_put_other (by omega)
  size := Nat.le_of_eq Memory.size_put.symm

variable {room : Nat} {bytes : List UInt8} {words : List Int64}

theorem read_fill_other {number : Int} {other : Nat}
    (apart : other + 8 ≤ place ∨ place + bytes.length ≤ other)
    (reads : memory.read other = some number) :
    (fill memory place bytes).read other = some number := by
  refine Memory.read_congr (Nat.le_of_eq size_fill.symm) ?_ reads
  intro at_ above below
  exact bytes_fill_other (by omega)

theorem Bumped.allocate (bumped : Bumped memory top) (fits : top + room ≤ memory.size) :
    Host.allocate memory room = some (top, memory.put 0 (top + room : Nat)) ∧
      Grown memory (memory.put 0 (top + room : Nat)) top room := by
  have start := bumped.start
  have small := bumped.small
  have reserved : 8 ≤ HEAP_START := by decide
  constructor
  · exact allocate_eq bumped.bump (by omega) fits (by omega)
  · refine ⟨⟨?_, ?_, ?_, ?_⟩, Memory.size_put, kept_bump⟩
    · exact Memory.read_put (by omega) ⟨by omega, by omega⟩
    · omega
    · rwa [Memory.size_put]
    · rwa [Memory.size_put]

variable {state : State World}

theorem Grown.above {last : Memory} (grown : Grown memory after top room) (start : 8 ≤ top)
    (size : last.size = after.size)
    (same : ∀ address, address < top → last.bytes address = after.bytes address) :
    Grown memory last top room := by
  rcases grown with ⟨⟨bump, high, inside, small⟩, size_, kept⟩
  refine ⟨⟨?_, high, by rwa [size], by rwa [size]⟩, size.trans size_, ?_, ?_⟩
  · refine Memory.read_congr (Nat.le_of_eq size.symm) ?_ bump
    intro address _ below
    exact same address (by omega)
  · intro address reserved below
    rw [same address below, kept.bytes address reserved below]
  · rw [size]
    exact kept.size

theorem length_le_asBytes (text : Text) : text.length ≤ (asBytes text).length := by
  induction text with
  | nil => exact Nat.le_refl _
  | cons character text ih =>
      have some : 1 ≤ (String.utf8EncodeChar character).length := by
        rw [String.length_utf8EncodeChar]
        exact character.utf8Size_pos
      rw [asBytes, List.flatMap_cons, List.length_append, List.length_cons]
      change text.length ≤ (text.flatMap String.utf8EncodeChar).length at ih
      omega

theorem grown_textPut (grown : Grown memory after top room) (start : 8 ≤ top) :
    Grown memory (textPut after top found) top room := by
  refine grown.above start ?_ ?_
  · rw [textPut, size_fill, size_putAll]
  · intro address below
    rw [textPut, bytes_fill_other (by omega), bytes_putAll_other (by omega)]

theorem toInt_ofNat64 {number : Nat} (small : number < 2 ^ 63) :
    (Int64.ofNat number).toInt = number := toInt_handleValue small

theorem textAt_textPut (start : 8 ≤ top) (small : memory.size ≤ 2 ^ 32)
    (inside : top + Runtime.stringSize (asBytes found).length ≤ memory.size) :
    TextAt (textPut memory top found) top
      (top + Runtime.stringSize (asBytes found).length) top found := by
  have size := length_le_stringSize (asBytes found).length
  have characters := length_le_asBytes found
  have room : top + 8 * [Int64.ofNat found.length, Int64.ofNat (asBytes found).length].length ≤
      memory.size := by
    rw [List.length_cons, List.length_singleton]
    omega
  refine ⟨⟨?_, ?_, ?_, ?_, start⟩, Nat.le_refl _, Nat.le_refl _⟩
  · have first := read_putAll room Nat.zero_lt_two
    rw [List.getElem_cons_zero, toInt_ofNat64 (by omega)] at first
    rw [String.length_ofList]
    exact read_fill_other (by omega) first
  · have second := read_putAll room Nat.one_lt_two
    rw [List.getElem_cons_succ, List.getElem_cons_zero, toInt_ofNat64 (by omega)] at second
    rw [bytesOf_ofList]
    exact read_fill_other (by omega) second
  · rw [bytesOf_ofList, textPut, size_fill, size_putAll]
    exact inside
  · intro index below
    simp only [bytesOf_ofList] at below ⊢
    exact bytes_fill (by rw [size_putAll]; omega) below

/-- A string that fits is written at the bump pointer. -/
theorem ran_string (bumped : Bumped state.memory top)
    (fits : top + Runtime.stringSize (asBytes found).length ≤ state.memory.size) :
    ∃ memory, HostM.ran (string found) state =
        (.ok (address top), { state with memory := memory }) ∧
      Grown state.memory memory top (Runtime.stringSize (asBytes found).length) ∧
      TextAt memory top (top + Runtime.stringSize (asBytes found).length) top found := by
  have size := length_le_stringSize (asBytes found).length
  have start : 8232 ≤ top := bumped.start
  have small := bumped.small
  rcases bumped.allocate fits with ⟨allocated, grown⟩
  have wrote := writeText_eq (by omega) (by rw [Memory.size_put]; exact fits) allocated
  refine ⟨_, ?_, grown_textPut grown (by omega), textAt_textPut (by omega) ?_ ?_⟩
  · rw [string, written, ran_bind_ok ran_get, wrote]
    rfl
  · rwa [Memory.size_put]
  · rwa [Memory.size_put]

theorem Grown.trans {last : Memory} {again : Nat} (first : Grown memory after top room)
    (second : Grown after last (top + room) again) : Grown memory last top (room + again) where
  bumped := Nat.add_assoc top room again ▸ second.bumped
  size := second.size.trans first.size
  kept := first.kept.trans second.kept (Nat.le_add_right _ _)

theorem Grown.refl (bumped : Bumped memory top) : Grown memory memory top 0 :=
  ⟨bumped, rfl, Kept.refl _ _⟩

/-- How much of the memory some strings take. -/
def roomOfTexts (texts : List Text) : Nat :=
  (texts.map fun text => Runtime.stringSize (asBytes text).length).sum

theorem ran_mapM {texts : List Text} (bumped : Bumped state.memory top)
    (fits : top + roomOfTexts texts ≤ state.memory.size) :
    ∃ memory places, HostM.ran (texts.mapM string) state =
        (.ok (places.map address), { state with memory := memory }) ∧
      Grown state.memory memory top (roomOfTexts texts) ∧
      List.Forall₂ (fun place text => TextAt memory top (top + roomOfTexts texts) place text)
        places texts := by
  induction texts generalizing state top with
  | nil => exact ⟨state.memory, [], rfl, Grown.refl bumped, .nil⟩
  | cons text texts ih =>
      have total : roomOfTexts (text :: texts) =
          Runtime.stringSize (asBytes text).length + roomOfTexts texts := by
        rw [roomOfTexts, List.map_cons, List.sum_cons]
        rfl
      rw [total] at fits ⊢
      have first : top + Runtime.stringSize (asBytes text).length ≤ state.memory.size := by omega
      rcases ran_string bumped first with ⟨memory, ran, grown, there⟩
      have second : top + Runtime.stringSize (asBytes text).length + roomOfTexts texts ≤
          memory.size := by
        rw [grown.size]
        omega
      rcases @ih _ { state with memory := memory } grown.bumped second with
        ⟨last, places, later, again, rest⟩
      refine ⟨last, top :: places, ?_, grown.trans again, .cons ?_ ?_⟩
      · rw [List.mapM_cons, ran_bind_ok ran, ran_bind_ok later]
        rfl
      · exact there.kept again.kept (Nat.le_refl _) (by omega)
      · rw [← Nat.add_assoc]
        exact rest.imp fun _ _ text => text.weaken (Nat.le_add_right _ _) (Nat.le_refl _)

theorem grown_listPut {items : List Value} (grown : Grown memory after top room)
    (start : 8 ≤ top) : Grown memory (listPut after top items) top room := by
  refine grown.above start size_putAll ?_
  intro address below
  exact bytes_putAll_other (by omega)

theorem asI64_address {number : Nat} (small : number < 2 ^ 63) :
    (asI64 (address number)).toInt = number := toInt_ofNat64 small

theorem listAt_listPut {places : List Nat} (start : 8 ≤ top) (small : memory.size ≤ 2 ^ 32)
    (below : ∀ place ∈ places, place < 2 ^ 63)
    (inside : top + Runtime.listSize places.length ≤ memory.size) :
    ListAt (listPut memory top (places.map address)) top (places.map (↑)) := by
  have size : Runtime.listSize places.length = 8 + places.length * 8 := rfl
  have room : top + 8 * (Int64.ofNat (places.map address).length ::
      (places.map address).map asI64).length ≤ memory.size := by
    simp only [List.length_cons, List.length_map]
    omega
  constructor
  · have first := read_putAll room (Nat.succ_pos _)
    have count : (Int64.ofNat (places.map address).length).toInt = places.length := by
      rw [List.length_map]
      exact toInt_ofNat64 (by omega)
    rw [List.getElem_cons_zero, count, Nat.zero_mul, Nat.add_zero] at first
    rw [List.length_map]
    exact first
  · rw [listPut, size_putAll, List.length_map]
    exact inside
  · intro index within
    have within_ : index < places.length := by rwa [List.length_map] at within
    have element := @read_putAll memory top _ (index + 1) room (by simpa using within_)
    rw [List.getElem_cons_succ, List.getElem_map, List.getElem_map,
      asI64_address (below _ (List.getElem_mem within_))] at element
    rw [List.getElem_map, show top + 8 + index * 8 = top + (index + 1) * 8 by omega]
    exact element
  · exact start

theorem placed_below {places : List Nat} {texts : List Text}
    (rest : List.Forall₂ (fun place text => TextAt memory low top place text) places texts) :
    ∀ place ∈ places, place ≤ top := by
  induction rest with
  | nil => exact nofun
  | cons text _ ih =>
      intro place there
      rcases List.mem_cons.mp there with rfl | there
      · exact (Nat.le_add_right _ _).trans text.below
      · exact ih place there

/-- Strings that fit are written at the bump pointer, and then the list of them. -/
theorem ran_strings {texts : List Text} (bumped : Bumped state.memory top)
    (fits : top + roomOfTexts texts + Runtime.listSize texts.length ≤ state.memory.size) :
    ∃ memory word, HostM.ran (strings texts) state =
        (.ok word, { state with memory := memory }) ∧
      Grown state.memory memory top (roomOfTexts texts + Runtime.listSize texts.length) ∧
      Stands held memory top (top + (roomOfTexts texts + Runtime.listSize texts.length)) word
        (.list (texts.map .str)) := by
  have first : top + roomOfTexts texts ≤ state.memory.size := by omega
  rcases ran_mapM bumped first with ⟨middle, places, ran, grown, rest⟩
  have start : 8232 ≤ top := bumped.start
  have small := bumped.small
  have count := rest.length_eq
  have size : Runtime.listSize places.length = 8 + places.length * 8 := rfl
  have fits_ : top + roomOfTexts texts + Runtime.listSize places.length ≤ middle.size := by
    rw [grown.size, count]
    exact fits
  rcases grown.bumped.allocate fits_ with ⟨allocated, again⟩
  have middle_small : middle.size ≤ 2 ^ 32 := by rwa [grown.size]
  have short : (places.map address).length < 2 ^ 29 - 1 := by
    rw [List.length_map]
    omega
  have wrote := @writeList_eq middle _ _ (places.map address) short
    (by rw [again.size, List.length_map]; exact fits_)
    (by rw [List.length_map]; exact allocated)
  have last := @grown_listPut middle _ (top + roomOfTexts texts) (Runtime.listSize places.length)
    (places.map address) again (by omega)
  rw [← count]
  refine ⟨_, address (top + roomOfTexts texts), ?_, grown.trans last, ?_⟩
  · rw [strings, ran_bind_ok ran, written, ran_bind_ok ran_get, wrote]
    rfl
  · rw [← Nat.add_assoc]
    refine .list (listAt_listPut (by omega) ?_ ?_ ?_) (by omega) (Nat.le_refl _) ?_
    · rwa [Memory.size_put]
    · intro place there
      have below := placed_below rest place there
      omega
    · rwa [Memory.size_put]
    · exact rest.imp fun _ _ text => text.kept last.kept (Nat.le_refl _) (Nat.le_add_right _ _)

/-- The values that an operation answers with. -/
def Answerable : Interp.Value → Prop
  | .int number => Fits64 number
  | .bool _ => False
  | .list elements => ∃ texts : List Text, elements = texts.map .str
  | .result _ value => Answerable value
  | _ => True

/-- A tag and a word that fit are written at the bump pointer. -/
theorem ran_writeAggregate {tag : Int64} (bumped : Bumped state.memory top)
    (fits : top + 16 ≤ state.memory.size) :
    ∃ memory, HostM.ran (written fun memory => writeAggregate memory (some tag) [word]) state =
        (.ok (address top), { state with memory := memory }) ∧
      Grown state.memory memory top 16 ∧ memory.read top = some tag.toInt ∧
      memory.read (top + 8) = some (asI64 word).toInt := by
  have start : 8232 ≤ top := bumped.start
  rcases bumped.allocate fits with ⟨allocated, grown⟩
  have inside : top + 16 ≤ (state.memory.put 0 (top + 16 : Nat)).size := by
    rw [grown.size]
    exact fits
  have wrote := @writeAggregate_eq _ _ _ tag word inside allocated
  have room : top + 8 * [tag, asI64 word].length ≤ (state.memory.put 0 (top + 16 : Nat)).size :=
    inside
  refine ⟨_, ?_, grown.above (by omega) size_putAll ?_, read_putAll room Nat.zero_lt_two,
    read_putAll room Nat.one_lt_two⟩
  · rw [written, ran_bind_ok ran_get, wrote]
    rfl
  · intro address below
    exact bytes_putAll_other (by omega)

/-- A value that fits is written at the bump pointer. -/
theorem ran_placed (answerable : Answerable value) (bumped : Bumped state.memory top)
    (table : state.held.length + 1 < 2 ^ 63) (fits : top + roomOf value ≤ state.memory.size) :
    ∃ word memory, HostM.ran (placed value) state =
        (.ok word, { state with held := interning state.held value, memory := memory }) ∧
      Grown state.memory memory top (roomOf value) ∧
      Stands (interning state.held value) memory top (top + roomOf value) word value := by
  induction value using Interp.Value.carried generalizing state with
  | unit => exact ⟨_, _, rfl, Grown.refl bumped, .unit _⟩
  | int number =>
      refine ⟨_, _, rfl, Grown.refl bumped, ?_⟩
      have stands := @Stands.int state.held state.memory top top (Int64.ofInt number)
      rw [toInt_ofInt64 answerable] at stands
      exact stands
  | bool value => exact answerable.elim
  | str text =>
      rcases ran_string bumped fits with ⟨memory, ran, grown, there⟩
      exact ⟨_, memory, ran, grown, .str there⟩
  | list elements =>
      rcases answerable with ⟨texts, rfl⟩
      rw [roomOf, textsOf_map] at fits ⊢
      rcases @ran_strings _ state.held top state texts bumped (by rw [roomOfTexts]; omega) with
        ⟨memory, word, ran, grown, stands⟩
      refine ⟨word, memory, ?_, grown, stands⟩
      rw [placed, textsOf_map]
      exact ran
  | capability capability =>
      rcases ran_handOut state (heldOf capability) with ⟨index, there, ran⟩
      refine ⟨_, state.memory, ran, Grown.refl bumped, ?_⟩
      have below := (List.getElem?_eq_some_iff.mp there).1
      have most := @length_intern state.held (heldOf capability)
      have stands := @Stands.capability (intern state.held (heldOf capability)) state.memory top top
        (handleValue (index + 1)) (heldOf capability)
        (standsFor_eq_some.mpr ⟨_, index, rfl, toInt_handleValue (by omega), there⟩)
      have same : (heldOf capability).capability = capability := by
        cases capability <;> rfl
      rw [same] at stands
      exact stands
  | result ok value ih =>
      rw [roomOf] at fits ⊢
      rcases ih answerable bumped table (by omega) with ⟨word, memory, ran, grown, stands⟩
      have start : 8232 ≤ top := bumped.start
      rcases @ran_writeAggregate _ (top + roomOf value) word
        { state with held := interning state.held value, memory := memory } (tagOf ok)
        grown.bumped (by show _ ≤ memory.size; rw [grown.size]; omega) with
        ⟨last, wrote, again, tag, field⟩
      refine ⟨_, last, (ran_bind_ok ran).trans wrote, grown.trans again, ?_⟩
      exact .result tag field (by omega) (by omega) (by omega)
        (stands.kept again.kept (Nat.le_refl _) (by omega) List.prefix_rfl)

/-- What an answer is of a value: nothing for the value that is nothing, else a word. -/
inductive Carries (held : List Held) (memory : Memory) (low top : Nat) :
    Option Value → Interp.Value → Prop
  | nothing : Carries held memory low top none .unit
  | word {word : Value} {value : Interp.Value} :
      Stands held memory low top word value → Carries held memory low top (some word) value

theorem ran_reply (answerable : Answerable value) (bumped : Bumped state.memory top)
    (table : state.held.length + 1 < 2 ^ 63) (fits : top + roomOf value ≤ state.memory.size) :
    ∃ answer memory, HostM.ran (reply value) state =
        (.ok answer, { state with held := interning state.held value, memory := memory }) ∧
      Grown state.memory memory top (roomOf value) ∧
      Carries (interning state.held value) memory top (top + roomOf value) answer value := by
  rcases ran_placed answerable bumped table fits with ⟨word, memory, ran, grown, stands⟩
  cases value with
  | unit => exact ⟨none, state.memory, rfl, Grown.refl bumped, .nothing⟩
  | _ => exact ⟨some word, memory, ran_bind_ok ran, grown, .word stands⟩

/-! ## Reading what a program passes -/

theorem load_of_read {number : Int} (reads : memory.read place = some number) :
    ∃ word, memory.load place = some word ∧ word.toInt = number := by
  rw [Memory.read, Option.map_eq_some_iff] at reads
  exact reads

/-- The string that stands at an address is the one that the host reads there. -/
theorem text_textAt (there : TextAt memory low top place found) (inside : top ≤ memory.size)
    (small : memory.size ≤ 2 ^ 32) :
    text memory (some (address place)) = .ok (some found) := by
  rcases there with ⟨⟨-, count, -, bytes, reserved⟩, -, below⟩
  have size := length_le_stringSize (asBytes found).length
  rw [bytesOf_ofList] at count
  rcases load_of_read count with ⟨word, load, value⟩
  have number : (asI64 (address place)).toInt = place := asI64_address (by omega)
  have length : unsigned word = (asBytes found).length := by
    rw [← Int64.ofInt_toInt word, value]
    exact unsigned_ofInt (by omega)
  have slice : memory.slice (place + 16) (asBytes found).length = asBytes found := by
    apply List.ext_getElem
    · rw [Memory.slice, List.length_map, List.length_range]
    · intro index below_ within
      simp only [Memory.slice, List.getElem_map, List.getElem_range]
      simp only [bytesOf_ofList] at bytes
      exact bytes index within
  rw [text]
  simp only [number, Int.toNat_natCast, load, length]
  rw [if_neg (by omega), if_neg (by omega), if_pos (by omega), slice, fromUtf8_asBytes]

theorem text_stands (stands : Stands held memory low top word (.str found))
    (inside : top ≤ memory.size) (small : memory.size ≤ 2 ^ 32) : text memory (some word) = .ok (some found) := by
  cases stands with
  | str there => exact text_textAt there inside small

theorem capability_inj {what other : Held} (same : what.capability = other.capability) :
    what = other := by
  rw [← heldOf_capability what, same, heldOf_capability]

theorem stands_capability {what : Held}
    (stands : Stands held memory low top word (.capability what.capability)) :
    standsFor held (some word) = some what := by
  generalize same : (Interp.Value.capability what.capability) = value at stands
  cases stands with
  | capability stands =>
      rw [capability_inj (Interp.Value.capability.inj same)]
      exact stands
  | _ => exact absurd same (by simp)

variable {operation : Operation} {words_ : List Value} {texts : List Text} {what : Held}

/-- What a program passes for an operation's arguments is what the host takes. -/
theorem passes_of_stands (bumped : Bumped state.memory top)
    (kind : what.is (takes operation) = true) (count : texts.length = reads operation)
    (stands : List.Forall₂ (Stands state.held state.memory low top) words_
      (.capability what.capability :: texts.map .str)) :
    Passes state operation words_ what texts := by
  cases stands with
  | @cons _ _ strings _ first rest =>
      refine ⟨stands_capability first, kind, count, ?_⟩
      intro position below
      have within : position < strings.length := by
        rw [rest.length_eq, List.length_map]
        exact below
      have string := rest.get within (by rwa [List.length_map])
      rw [List.get_eq_getElem, List.get_eq_getElem, List.getElem_map] at string
      rw [List.getElem?_cons_succ, List.getElem?_eq_getElem within]
      exact text_stands string bumped.inside bumped.small

/-! ## What an operation changes -/

/-- What an operation leaves alone, and what it answers. -/
structure Answers (interp later : Interp World) (value : Interp.Value) : Prop where
  frame : later = { interp with
    world := later.world
    readLines := later.readLines
    ticks := later.ticks
    output := later.output }
  answerable : Answerable value
  ticks : interp.ticks ≤ later.ticks

variable {platform : Platform World} {display : Interp.Value → Text} {grants : Grants}
  {interp later : Interp World}

theorem answerable_asked (outcome : Except Text Text) : Answerable (Interp.asked outcome) := by
  cases outcome <;> trivial

theorem answerable_open {world : World} {root : Path} {name : Text} :
    Answerable (Interp.performOpen platform world root name) := by
  unfold Interp.performOpen
  split
  · split <;> trivial
  · trivial

theorem answerable_read {world : World} {root : Path} {name : Text} :
    Answerable (Interp.performRead platform world root name) := by
  unfold Interp.performRead
  split
  · split <;> trivial
  · trivial

theorem answerable_save {world : World} {root : Path} {name contents : Text} :
    Answerable (Interp.performSave platform world root name contents).1 := by
  unfold Interp.performSave
  split
  · split <;> trivial
  · trivial

theorem answerable_remove {world : World} {root : Path} {name : Text} :
    Answerable (Interp.performRemove platform world root name).1 := by
  unfold Interp.performRemove
  split
  · split
    · trivial
    · split <;> trivial
  · trivial

theorem answerable_make {world : World} {root : Path} {name : Text} :
    Answerable (Interp.performMake platform world root name).1 := by
  unfold Interp.performMake
  split
  · split
    · trivial
    · split
      · split <;> trivial
      · trivial
  · trivial

theorem answers_of_ok {given : Interp.Value} {then_ : Interp World}
    (run : (Except.ok (given, then_) : Except Interp.Failure _) = .ok (value, later))
    (answers : Answers interp then_ given) : Answers interp later value := by
  rcases Prod.mk.inj (Except.ok.inj run) with ⟨rfl, rfl⟩
  exact answers

theorem performIo_answers {arguments : List Interp.Value} (ticks : 0 ≤ interp.ticks)
    (run : performIo platform display operation arguments interp = .ok (value, later)) :
    Answers interp later value := by
  rcases arguments with _ | ⟨first, rest⟩
  · exact absurd run (by simp [performIo])
  · cases first with
    | capability held =>
        have still := Int.le_refl interp.ticks
        cases operation <;> cases held <;>
          simp only [performIo, List.head?_cons, reduceCtorEq] at run
        case write.console => exact answers_of_ok run ⟨rfl, trivial, still⟩
        case line.console =>
          split at run
          · exact answers_of_ok run ⟨rfl, trivial, still⟩
          · exact answers_of_ok run ⟨rfl, trivial, still⟩
        case now.clock =>
          split at run
          · rename_i below
            refine answers_of_ok run ⟨rfl, ⟨by omega, below⟩, ?_⟩
            show interp.ticks ≤ interp.ticks + 1
            omega
          · exact absurd run (by simp)
        case epoch.clock =>
          exact answers_of_ok run ⟨rfl, ⟨Int64.le_toInt _, Int64.toInt_lt _⟩, still⟩
        case args.system => exact answers_of_ok run ⟨rfl, ⟨_, rfl⟩, still⟩
        case env.system =>
          rcases Interp.bind_ok run with ⟨wanted, -, run⟩
          split at run
          · exact answers_of_ok run ⟨rfl, trivial, still⟩
          · exact answers_of_ok run ⟨rfl, trivial, still⟩
        case list.dir =>
          split at run
          · exact answers_of_ok run ⟨rfl, ⟨_, rfl⟩, still⟩
          · exact answers_of_ok run ⟨rfl, trivial, still⟩
        case open.dir =>
          rcases Interp.bind_ok run with ⟨name, -, run⟩
          exact answers_of_ok run ⟨rfl, answerable_open, still⟩
        case read.dir =>
          rcases Interp.bind_ok run with ⟨name, -, run⟩
          exact answers_of_ok run ⟨rfl, answerable_read, still⟩
        case save.dir =>
          rcases Interp.bind_ok run with ⟨name, -, run⟩
          rcases Interp.bind_ok run with ⟨contents, -, run⟩
          exact answers_of_ok run ⟨rfl, answerable_save, still⟩
        case remove.dir =>
          rcases Interp.bind_ok run with ⟨name, -, run⟩
          exact answers_of_ok run ⟨rfl, answerable_remove, still⟩
        case make.dir =>
          rcases Interp.bind_ok run with ⟨name, -, run⟩
          exact answers_of_ok run ⟨rfl, answerable_make, still⟩
        case reach.net =>
          rcases Interp.bind_ok run with ⟨host, -, run⟩
          split at run
          · exact answers_of_ok run ⟨rfl, trivial, still⟩
          · exact answers_of_ok run ⟨rfl, trivial, still⟩
        case fetch.net =>
          rcases Interp.bind_ok run with ⟨url, -, run⟩
          exact answers_of_ok run ⟨rfl, answerable_asked _, still⟩
        case send.net =>
          rcases Interp.bind_ok run with ⟨url, -, run⟩
          rcases Interp.bind_ok run with ⟨body, -, run⟩
          exact answers_of_ok run ⟨rfl, answerable_asked _, still⟩
    | _ => exact absurd run (by simp [performIo])

/-! ## Runs -/

/-- The interpreter of a set of grants. -/
def Grants.intoInterp (grants : Grants) (world : World) : Interp World where
  world := world
  root := grants.files
  reach := grants.network.getD Reach.none
  arguments := grants.arguments.getD []
  environment := grants.environment.getD []
  input := grants.input.getD []
  readLines := 0
  ticks := 0
  output := []

/-- An operation as a checked program performs it: a handle and strings that stand for a
capability of the kind it acts on and the strings it takes.  Its answer fits between the
bump pointer and the end of the memory as it is, and the table is within its type. -/
structure Performs (platform : Platform World) (grants : Grants) (display : Interp.Value → Text)
    (state : State World) (operation : Operation) (arguments : List Value) (what : Held)
    (texts : List Text) (top : Nat) : Prop where
  offered : grants.offers (.io operation) = true
  kind : what.is (takes operation) = true
  count : texts.length = reads operation
  bumped : Bumped state.memory top
  stands : List.Forall₂ (Stands state.held state.memory 0 top) arguments
    (.capability what.capability :: texts.map .str)
  room : ∀ value later, performIo platform display operation
    (.capability what.capability :: texts.map .str) (asInterp grants state) =
      .ok (value, later) → top + roomOf value ≤ state.memory.size
  table : state.held.length + 1 < 2 ^ 63

/-- The host of a set of grants and the interpreter with the same, as the same program
brings them along: it computes in its memory, it takes a field out of `System`, and it
performs operations, the interpreter on the values that the host's arguments stand for. -/
inductive Together (platform : Platform World) (grants : Grants)
    (display : Interp.Value → Text) : State World → Interp World → Prop
  | start (world : World) (memory : Memory) :
      Together platform grants display (grants.intoHost world memory) (grants.intoInterp world)
  | computed {state : State World} {interp : Interp World} (memory : Memory) :
      Together platform grants display state interp →
      Together platform grants display { state with memory := memory } interp
  | narrowed {state after : State World} {interp : Interp World} {field : Field}
      {arguments : List Value} {answer : Option Value} :
      Together platform grants display state interp → grants.offers (.sys field) = true →
      standsFor state.held arguments[0]? = some .system →
      HostM.ran (grants.call platform (.sys field) arguments) state = (.ok answer, after) →
      Together platform grants display after interp
  | performed {state after : State World} {interp later : Interp World} {operation : Operation}
      {arguments : List Value} {what : Held} {texts : List Text} {top : Nat}
      {answer : Option Value} {value : Interp.Value} :
      Together platform grants display state interp →
      Performs platform grants display state operation arguments what texts top →
      HostM.ran (grants.call platform (.io operation) arguments) state = (.ok answer, after) →
      performIo platform display operation (.capability what.capability :: texts.map .str)
        interp = .ok (value, later) →
      Together platform grants display after later

/-- What the host keeps of the interpreter: the same state of the same machine, and every
capability of the grants in the table, none of them twice. -/
structure Paired (grants : Grants) (state : State World) (interp : Interp World) : Prop where
  same : asInterp grants state = interp
  granted : grants.held <+: state.held
  nodup : state.held.Nodup
  ticks : 0 ≤ state.ticks

variable {arguments : List Value} {field : Field} {answer : Option Value}

theorem nodup_held (grants : Grants) : grants.held.Nodup := by
  rcases grants with ⟨console, input, clock, files, network, arguments, environment⟩
  cases console <;> cases clock <;> cases files <;> cases network <;> simp [Grants.held]

/-- What an offered field narrows to is in the table from the start. -/
theorem narrowsTo_mem (offered : grants.offers (.sys field) = true) :
    narrowsTo grants field ∈ grants.held := by
  rcases grants with ⟨console, input, clock, files, network, arguments, environment⟩
  cases field with
  | console =>
      rcases (show console = true from offered) with rfl
      simp [narrowsTo, Grants.held]
  | clock =>
      rcases (show clock = true from offered) with rfl
      simp [narrowsTo, Grants.held]
  | files =>
      rcases Option.isSome_iff_exists.mp (show files.isSome = true from offered) with ⟨root, rfl⟩
      simp [narrowsTo, Grants.held]
  | net =>
      rcases Option.isSome_iff_exists.mp (show network.isSome = true from offered) with
        ⟨reach, rfl⟩
      simp [narrowsTo, Grants.held]

/-- What the interpreter answers for a field is what the host's handle stands for. -/
theorem narrowed_asInterp (offered : grants.offers (.sys field) = true) :
    Interp.narrowed (asInterp grants state) field.name =
      .ok (narrowsTo grants field).capability := by
  rcases grants with ⟨console, input, clock, files, network, arguments, environment⟩
  cases field with
  | files =>
      rcases Option.isSome_iff_exists.mp (show files.isSome = true from offered) with ⟨root, rfl⟩
      rfl
  | _ => rfl

theorem nodup_interning (nodup : held.Nodup) : (interning held value).Nodup := by
  induction value using Interp.Value.carried with
  | capability capability => exact nodup_intern nodup
  | result ok value ih => exact ih
  | _ => exact nodup

/-- A number stands for one capability, and a capability has one number. -/
theorem Paired.one_to_one {word other_ : Value} {other : Held}
    (paired : Paired grants state interp)
    (stands : standsFor state.held (some word) = some what)
    (others : standsFor state.held (some other_) = some other) :
    (asI64 word).toInt = (asI64 other_).toInt ↔ what.capability = other.capability := by
  rcases standsFor_eq_some.mp stands with ⟨_, index, ⟨⟩, number, there⟩
  rcases standsFor_eq_some.mp others with ⟨_, place, ⟨⟩, number_, there_⟩
  rw [number, number_]
  constructor
  · intro same
    have index_eq : index = place := by omega
    rw [index_eq, there_] at there
    rw [Option.some.inj there]
  · intro same
    rw [capability_inj same] at there
    have below := (List.getElem?_eq_some_iff.mp there).1
    rw [(List.getElem?_inj below paired.nodup).mp (there.trans there_.symm)]

/-- How the host answers where the interpreter does. -/
theorem Paired.performs (paired : Paired grants state interp)
    (performs : Performs platform grants display state operation arguments what texts top)
    (run : performIo platform display operation (.capability what.capability :: texts.map .str)
      interp = .ok (value, later)) :
    ∃ answer after, HostM.ran (grants.call platform (.io operation) arguments) state =
        (.ok answer, after) ∧
      Paired grants after later ∧ after.held = interning state.held value ∧
      Grown state.memory after.memory top (roomOf value) ∧
      Carries after.held after.memory top (top + roomOf value) answer value := by
  have passes := passes_of_stands performs.bumped performs.kind performs.count performs.stands
  have called := @call_io _ _ _ platform grants _ _ _ display passes
  rw [← paired.same] at run
  have answers := performIo_answers paired.ticks run
  rw [run] at called
  rcases @ran_reply _ top value (resumed state later) answers.answerable performs.bumped
    performs.table (performs.room value later run) with ⟨answer, memory, ran, grown, carries⟩
  refine ⟨answer, _, called.trans ran, ⟨?_, ?_, ?_, ?_⟩, rfl, grown, carries⟩
  · rw [answers.frame]
    rfl
  · exact paired.granted.trans prefix_interning
  · exact nodup_interning paired.nodup
  · exact paired.ticks.trans answers.ticks

theorem Together.paired (together : Together platform grants display state interp) :
    Paired grants state interp := by
  induction together with
  | start world memory => exact ⟨rfl, List.prefix_rfl, nodup_held grants, Int.le_refl _⟩
  | computed memory _ ih => exact ⟨ih.same, ih.granted, ih.nodup, ih.ticks⟩
  | narrowed _ offered stands ran ih =>
      rw [ran_narrow stands] at ran
      rcases Prod.mk.inj ran with ⟨-, rfl⟩
      exact ih
  | performed _ performs ran run ih =>
      rcases ih.performs performs run with ⟨answer, after, ran_, paired, -⟩
      rw [ran_] at ran
      rcases Prod.mk.inj ran with ⟨-, rfl⟩
      exact paired

/-- Wherever the same program brings the host and the interpreter of a set of grants: they
are in the same state of the same machine, and handles and capabilities are one to one; a
field of `System` that is offered is answered with the handle of what the interpreter
answers; and an operation whose answer fits is answered with what stands for the
interpreter's value, in memory that was not taken, or stops where the interpreter does. -/
theorem hosts_answer_alike (together : Together platform grants display state interp) :
    asInterp grants state = interp ∧
    (∀ word other_ what other, standsFor state.held (some word) = some what →
      standsFor state.held (some other_) = some other →
      ((asI64 word).toInt = (asI64 other_).toInt ↔ what.capability = other.capability)) ∧
    (∀ field arguments, grants.offers (.sys field) = true → state.held.length < 2 ^ 63 →
      standsFor state.held arguments[0]? = some .system →
      ∃ word what, HostM.ran (grants.call platform (.sys field) arguments) state =
          (.ok (some word), state) ∧
        standsFor state.held (some word) = some what ∧
        Interp.narrowed interp field.name = .ok what.capability) ∧
    ∀ operation arguments what texts top,
      Performs platform grants display state operation arguments what texts top →
      (∃ value later answer after,
        performIo platform display operation (.capability what.capability :: texts.map .str)
          interp = .ok (value, later) ∧
        HostM.ran (grants.call platform (.io operation) arguments) state = (.ok answer, after) ∧
        asInterp grants after = later ∧ state.held <+: after.held ∧
        Grown state.memory after.memory top (roomOf value) ∧
        Carries after.held after.memory top (top + roomOf value) answer value) ∨
      (performIo platform display operation (.capability what.capability :: texts.map .str)
          interp = .error .overflow ∧
        HostM.ran (grants.call platform (.io operation) arguments) state =
          (.error .panicked, state)) := by
  have paired := together.paired
  refine ⟨paired.same, fun word other_ what other => paired.one_to_one, ?_, ?_⟩
  · intro field arguments offered table stands
    have there := paired.granted.subset (narrowsTo_mem offered)
    rcases handle_of_mem there with ⟨index, there, handed⟩
    have below := (List.getElem?_eq_some_iff.mp there).1
    refine ⟨handleValue (index + 1), narrowsTo grants field, ?_, ?_, ?_⟩
    · rw [ran_narrow stands, handed]
    · exact standsFor_eq_some.mpr ⟨_, index, rfl, toInt_handleValue (by omega), there⟩
    · rw [← paired.same]
      exact narrowed_asInterp offered
  · intro operation arguments what texts top performs
    rcases performIo_ends performs.kind performs.count with
      ⟨value, later, run⟩ | ⟨-, -, overflows⟩
    · rcases paired.performs performs run with
        ⟨answer, after, ran, again, table, grown, carries⟩
      exact Or.inl ⟨value, later, answer, after, run, ran, again.same,
        table ▸ prefix_interning, grown, carries⟩
    · have passes := passes_of_stands performs.bumped performs.kind performs.count
        performs.stands
      have called := @call_io _ _ _ platform grants _ _ _ display passes
      rw [paired.same, overflows] at called
      exact Or.inr ⟨overflows, called⟩

/-- A host that grants a console with one line of input. -/
def consoleWithLine : Grants := { Grants.none with console := true, input := some ["hi".toList] }

/-- One page of memory whose bump pointer is at an address. -/
def bumpedPage (top : Nat) : Memory := blankPage.put 0 top

/-- The host of the console and its line, with the bump pointer at an address. -/
def atConsole (top : Nat) : State (Tree × Unit) :=
  consoleWithLine.intoHost Interp.rooted.world (bumpedPage top)

theorem size_bumpedPage {top : Nat} : (bumpedPage top).size = 65536 :=
  Memory.size_put.trans (by decide)

theorem bumped_bumpedPage {top : Nat} (start : HEAP_START ≤ top) (inside : top ≤ 65536) :
    Bumped (bumpedPage top) top where
  bump := Memory.read_put (by decide) ⟨by omega, by omega⟩
  start := start
  inside := by rwa [size_bumpedPage]
  small := by rw [size_bumpedPage]; decide

theorem memory_atConsole {top : Nat} : (atConsole top).memory = bumpedPage top := by
  rw [atConsole, Grants.intoHost]

theorem bumped_atConsole {top : Nat} (start : HEAP_START ≤ top) (inside : top ≤ 65536) :
    Bumped (atConsole top).memory top := by
  rw [memory_atConsole]
  exact bumped_bumpedPage start inside

/-- Taking the line performs the operation as a program does, at the start of the heap. -/
theorem performs_line :
    Performs Interp.machineOfFiles.platform consoleWithLine (fun _ => [])
      (atConsole HEAP_START) .line [.i64 2] .console [] HEAP_START where
  offered := rfl
  kind := rfl
  count := rfl
  bumped := bumped_atConsole (Nat.le_refl _) (by decide)
  stands := .cons (@Stands.capability _ _ _ _ _ .console (by decide)) .nil
  room := by
    intro value later run
    rcases Prod.mk.inj (Except.ok.inj run) with ⟨rfl, -⟩
    decide
  table := by decide

/-- The line is answered by both. -/
theorem hosts_answer_alike_line :
    ∃ value later answer after,
      performIo Interp.machineOfFiles.platform (fun _ => []) .line [.capability .console]
        (consoleWithLine.intoInterp Interp.rooted.world) = .ok (value, later) ∧
      HostM.ran (consoleWithLine.call Interp.machineOfFiles.platform (.io .line) [.i64 2])
        (atConsole HEAP_START) = (.ok answer, after) ∧
      asInterp consoleWithLine after = later ∧
      Grown (atConsole HEAP_START).memory after.memory HEAP_START (roomOf value) ∧
      Carries after.held after.memory HEAP_START (HEAP_START + roomOf value) answer value := by
  rcases (hosts_answer_alike (@Together.start _ Interp.machineOfFiles.platform consoleWithLine
    (fun _ => []) Interp.rooted.world (bumpedPage HEAP_START))).2.2.2 _ _ _ _ _ performs_line with
    ⟨value, later, answer, after, run, ran, same, -, grown, carries⟩ | ⟨overflows, -⟩
  · exact ⟨value, later, answer, after, run, ran, same, grown, carries⟩
  · cases overflows

/-- Where the current page is full the host stops, with all but one page of the memory still
to be had, and the interpreter answers. -/
theorem host_runs_out :
    Together Interp.machineOfFiles.platform consoleWithLine (fun _ => []) (atConsole 65528)
      (consoleWithLine.intoInterp Interp.rooted.world) ∧
    Bumped (atConsole 65528).memory 65528 ∧
    standsFor (atConsole 65528).held (some (.i64 2)) = some .console ∧
    performIo Interp.machineOfFiles.platform (fun _ => []) .line [.capability .console]
      (consoleWithLine.intoInterp Interp.rooted.world) =
        .ok (.ok (.str "hi".toList),
          { consoleWithLine.intoInterp Interp.rooted.world with readLines := 1 }) ∧
    65528 + roomOf (.ok (.str "hi".toList)) < 2 * page ∧
    (HostM.ran (consoleWithLine.call Interp.machineOfFiles.platform (.io .line) [.i64 2])
      (atConsole 65528)).1 = .error noRoom := by
  refine ⟨.start _ _, bumped_atConsole (by decide) (by decide), by decide, rfl, by decide, ?_⟩
  decide

end Deed.Host
