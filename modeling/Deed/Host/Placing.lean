import Deed.Host.Deliver
import Deed.Host.Writing

/-!
# How a host ends a call

What writing a value of the interpreter's does to a host: to its table, where a
capability is added that is not in it yet, and to the module's memory.
-/

namespace Deed.Host

open Deed.Wasm Deed.Rt

variable {World : Type} {state : State World} {held : List Held} {what : Held} {found : Text}
  {value : Interp.Value}

/-! ## Handles -/

/-- The table with a capability in it. -/
def intern (held : List Held) (what : Held) : List Held :=
  if what ∈ held then held else held ++ [what]

theorem mem_intern {other : Held} : other ∈ intern held what ↔ other ∈ held ∨ other = what := by
  rw [intern]
  split
  · constructor
    · exact Or.inl
    · rintro (there | rfl)
      · exact there
      · assumption
  · rw [List.mem_append, List.mem_singleton]

theorem prefix_intern : held <+: intern held what := by
  rw [intern]
  split
  · exact List.prefix_rfl
  · exact List.prefix_append _ _

theorem nodup_intern (nodup : held.Nodup) : (intern held what).Nodup := by
  rw [intern]
  split
  · exact nodup
  · rename_i absent
    exact List.nodup_append.mpr ⟨nodup, List.nodup_singleton _, by
      rintro one one_in other other_in rfl
      rw [List.mem_singleton] at other_in
      exact absent (other_in ▸ one_in)⟩

theorem length_intern : (intern held what).length ≤ held.length + 1 := by
  rw [intern]
  split
  · omega
  · rw [List.length_append, List.length_singleton]

theorem handle_of_mem (there : what ∈ held) :
    ∃ index : Nat, held[index]? = some what ∧
      handle held what = some (handleValue (index + 1)) := by
  rcases found : held.findIdx? (· = what) with _ | index
  · rw [List.findIdx?_eq_none_iff] at found
    exact absurd (found what there) (by simp)
  · refine ⟨index, ?_, by rw [handle, found]; rfl⟩
    rw [List.findIdx?_eq_some_iff_getElem] at found
    rcases found with ⟨below, same, -⟩
    rw [List.getElem?_eq_getElem below, of_decide_eq_true same]

theorem handle_of_notMem (absent : what ∉ held) : handle held what = none := by
  rw [handle, Option.map_eq_none_iff, List.findIdx?_eq_none_iff]
  intro one one_in
  exact decide_eq_false (by rintro rfl; exact absent one_in)

/-- Handing out puts a capability into the table and answers with its number. -/
theorem ran_handOut (state : State World) (what : Held) :
    ∃ index : Nat, (intern state.held what)[index]? = some what ∧
      HostM.ran (handOut what) state =
        (.ok (handleValue (index + 1)), { state with held := intern state.held what }) := by
  by_cases there : what ∈ state.held
  · rcases handle_of_mem there with ⟨index, stands, handed⟩
    refine ⟨index, by rwa [intern, if_pos there], ?_⟩
    rw [handOut, ran_bind_ok ran_get, handed, intern, if_pos there]
    rfl
  · refine ⟨state.held.length, ?_, ?_⟩
    · rw [intern, if_neg there, List.getElem?_concat_length]
    · rw [handOut, ran_bind_ok ran_get, handle_of_notMem there, intern, if_neg there]
      rfl

theorem toInt_handleValue {number : Nat} (small : number < 2 ^ 63) :
    (asI64 (handleValue number)).toInt = number := by
  show (Int64.ofNat number).toInt = number
  rw [← Int64.ofInt_eq_ofNat]
  exact toInt_ofInt64 ⟨by omega, by omega⟩

/-- A number stands for what is in the table one before it. -/
theorem standsFor_eq_some {argument : Option Value} :
    standsFor held argument = some what ↔
      ∃ value index, argument = some value ∧ (asI64 value).toInt = ((index + 1 : Nat) : Int) ∧
        held[index]? = some what := by
  constructor
  · intro stands
    rw [standsFor, Option.bind_eq_some_iff] at stands
    rcases stands with ⟨value, rfl, stands⟩
    dsimp only at stands
    split at stands
    · rename_i positive
      exact ⟨value, ((asI64 value).toInt - 1).toNat, rfl, by omega, stands⟩
    · exact absurd stands (by simp)
  · rintro ⟨value, index, rfl, number, stands⟩
    rw [standsFor, Option.bind_some]
    dsimp only
    rw [number, if_pos (by omega), show (((index + 1 : Nat) : Int) - 1).toNat = index by omega]
    exact stands

/-! ## Ends of a call -/

/-- The texts and the lists of a value are ones whose size in memory is a `u32`. -/
def Short : Interp.Value → Prop
  | .str text => (asBytes text).length ≤ 2 ^ 32 - 24
  | .list elements => (textsOf elements).length < 2 ^ 29 - 1 ∧
      ∀ text ∈ textsOf elements, (asBytes text).length ≤ 2 ^ 32 - 24
  | .result _ value => Short value
  | _ => True

/-- The table after a value was written out. -/
def interning (held : List Held) : Interp.Value → List Held
  | .capability capability => intern held (heldOf capability)
  | .result _ value => interning held value
  | _ => held

theorem prefix_interning : held <+: interning held value := by
  induction value using Interp.Value.carried with
  | capability capability => exact prefix_intern
  | result ok value ih => exact ih
  | _ => exact List.prefix_rfl

/-- A computation ends, with an answer that is `good` or for want of room, and changes
nothing but the table, to `held`, and the memory. -/
def Settles {α : Type} (computation : HostM World α) (state : State World)
    (held : List Held) (good : α → Memory → Prop) : Prop :=
  ∃ outcome memory, HostM.ran computation state =
    (outcome, { state with held := held, memory := memory }) ∧
      (∀ ended, outcome = .error ended → ended = noRoom) ∧
      ∀ value, outcome = .ok value → good value memory

variable {α β : Type} {first : HostM World α}

theorem settles_ok {computation : HostM World α} {good : α → Memory → Prop} {value : α}
    {memory : Memory}
    (ran : HostM.ran computation state =
      (.ok value, { state with held := held, memory := memory }))
    (holds : good value memory) : Settles computation state held good :=
  ⟨.ok value, memory, ran, nofun, fun _ same => Except.ok.inj same ▸ holds⟩

theorem Settles.mono {computation : HostM World α} {good better : α → Memory → Prop}
    (settles : Settles computation state held good)
    (weaker : ∀ value memory, good value memory → better value memory) :
    Settles computation state held better := by
  rcases settles with ⟨outcome, memory, ran, room, holds⟩
  exact ⟨outcome, memory, ran, room, fun value same => weaker _ _ (holds value same)⟩

theorem settles_bind {middle : List Held} {next : α → HostM World β}
    {good : α → Memory → Prop} {better : β → Memory → Prop}
    (start : Settles first state middle good) (stays : middle = held)
    (continues : ∀ value memory, good value memory →
      Settles (next value) { state with held := middle, memory := memory } held better) :
    Settles (first >>= next) state held better := by
  rcases start with ⟨outcome, memory, ran, room, holds⟩
  cases outcome with
  | error ended =>
      refine ⟨.error ended, memory, by rw [ran_bind_error ran, stays], ?_, nofun⟩
      intro other same
      exact Except.error.inj same ▸ room ended rfl
  | ok value =>
      rcases continues value memory (holds value rfl) with ⟨outcome, memory, later, room⟩
      exact ⟨outcome, memory, by rw [ran_bind_ok ran, later], room⟩

theorem settles_written {write : Memory → Except Ended (Option (Value × Memory))}
    {good : Value → Memory → Prop}
    (total : ∀ memory, ∃ outcome, write memory = .ok outcome ∧
      ∀ value after, outcome = some (value, after) → good value after) :
    Settles (written write) state state.held good := by
  rcases total state.memory with ⟨outcome, wrote, holds⟩
  rcases outcome with _ | ⟨value, after⟩
  · refine ⟨.error noRoom, state.memory, ?_, fun ended same => (Except.error.inj same).symm, nofun⟩
    rw [written, ran_bind_ok ran_get, wrote]
    rfl
  · refine @settles_ok _ _ _ _ _ _ value after ?_ (holds value after rfl)
    rw [written, ran_bind_ok ran_get, wrote]
    rfl

theorem settles_string (short : (asBytes found).length ≤ 2 ^ 32 - 24) :
    Settles (string found) state state.held fun _ _ => True := by
  apply settles_written
  intro memory
  rcases writeText_cases memory short with ⟨outcome, wrote⟩
  exact ⟨outcome, wrote, fun _ _ _ => trivial⟩

theorem settles_mapM {texts : List Text}
    (short : ∀ text ∈ texts, (asBytes text).length ≤ 2 ^ 32 - 24) :
    Settles (texts.mapM string) state state.held fun items _ => items.length = texts.length := by
  induction texts generalizing state with
  | nil => exact settles_ok rfl rfl
  | cons text texts ih =>
      rw [List.mapM_cons]
      refine settles_bind (settles_string (short text List.mem_cons_self)) rfl ?_
      intro item memory _
      refine settles_bind (ih fun text text_in => short text (List.mem_cons_of_mem _ text_in))
        rfl ?_
      intro items memory same
      exact settles_ok rfl (by rw [List.length_cons, List.length_cons, same])

theorem settles_strings {texts : List Text} (few : texts.length < 2 ^ 29 - 1)
    (short : ∀ text ∈ texts, (asBytes text).length ≤ 2 ^ 32 - 24) :
    Settles (strings texts) state state.held fun _ _ => True := by
  refine settles_bind (settles_mapM short) rfl ?_
  intro items memory same
  apply settles_written
  intro memory
  rcases writeList_cases memory (same ▸ few) with ⟨outcome, wrote⟩
  exact ⟨outcome, wrote, fun _ _ _ => trivial⟩

/-- Where an aggregate with a tag and a word is, and that both are there. -/
def Tagged (tag : Int64) (word : Value) (answer : Value) (memory : Memory) : Prop :=
  ∃ place : Nat, place < 2 ^ 64 ∧ answer = address place ∧
    memory.read place = some tag.toInt ∧ memory.read (place + 8) = some (asI64 word).toInt

theorem settles_writeAggregate {tag : Int64} {word : Value} :
    Settles (written fun memory => writeAggregate memory (some tag) [word]) state state.held
      (Tagged tag word) := by
  apply settles_written
  intro memory
  rcases allocate_cases memory 16 with full | ⟨place, small, inside, allocated⟩
  · refine ⟨none, ?_, nofun⟩
    have size : aggregateSize true 1 = .ok 16 := rfl
    rw [writeAggregate, Option.isSome_some, List.length_singleton, size, ok_bind, full]
  · refine ⟨_, writeAggregate_eq (by rwa [Memory.size_put]) allocated, ?_⟩
    intro answer after same
    rcases Prod.mk.inj (Option.some.inj same) with ⟨rfl, rfl⟩
    have room : place + 8 * [tag, asI64 word].length ≤
        (memory.put 0 (place + 16 : Nat)).size := by
      rw [Memory.size_put]
      exact inside
    exact ⟨place, by omega, rfl, read_putAll room Nat.zero_lt_two,
      read_putAll room Nat.one_lt_two⟩

/-- What the word for a value says of it: a capability's is its number. -/
def Numbered (held : List Held) : Interp.Value → Value → Prop
  | .capability capability, word => ∃ index : Nat,
      held[index]? = some (heldOf capability) ∧ word = handleValue (index + 1)
  | _, _ => True

theorem settles_placed (short : Short value) :
    Settles (placed value) state (interning state.held value)
      fun word _ => Numbered (interning state.held value) value word := by
  induction value using Interp.Value.carried generalizing state with
  | unit => exact settles_ok rfl trivial
  | int number => exact settles_ok rfl trivial
  | bool value => exact settles_ok rfl trivial
  | str text => exact settles_string short
  | list elements => exact settles_strings short.1 short.2
  | capability capability =>
      rcases ran_handOut state (heldOf capability) with ⟨index, stands, ran⟩
      exact settles_ok ran ⟨index, stands, rfl⟩
  | result ok value ih =>
      refine settles_bind (ih short) rfl ?_
      intro word memory _
      exact settles_writeAggregate.mono fun _ _ _ => trivial

/-- The tag of a `Result`. -/
def tagOf (ok : Bool) : Int64 := if ok then Runtime.OK else Runtime.ERR

/-- What an answer in memory says of a value: a `Result` is there with its tag, and a
capability in it by its number. -/
def Handed (held : List Held) (value : Interp.Value) (answer : Option Value) (memory : Memory) :
    Prop :=
  ∀ ok inner, value = .result ok inner → ∃ word placed, answer = some word ∧
    Tagged (tagOf ok) placed word memory ∧ Numbered held inner placed

theorem settles_reply (short : Short value) :
    Settles (reply value) state (interning state.held value)
      (Handed (interning state.held value) value) := by
  have plain (whole : ∀ ok inner, value ≠ .result ok inner) :
      Settles (placed value >>= fun word => pure (some word)) state
        (interning state.held value) (Handed (interning state.held value) value) := by
    refine settles_bind (settles_placed short) rfl ?_
    intro word memory _
    exact settles_ok rfl fun ok inner same => absurd same (whole ok inner)
  cases value with
  | unit => exact settles_ok rfl fun ok inner same => absurd same (by simp)
  | result ok value =>
      rw [reply_result]
      refine settles_bind (@settles_placed _ _ value short) rfl ?_
      intro word memory numbered
      refine settles_bind (@settles_writeAggregate _ _ (tagOf ok) word) rfl ?_
      intro answer memory tagged
      refine settles_ok rfl ?_
      intro ok inner same
      rcases Interp.Value.result.inj same with ⟨rfl, rfl⟩
      exact ⟨answer, word, rfl, tagged, numbered⟩
  | int | bool | str | list | capability => exact plain (by simp)

end Deed.Host
