import Deed.Host.Placing
import Deed.Interp.Dirs
import Deed.Rt.ReachSound

/-!
# Handles are unforgeable

Every run of a module against the host of a set of grants, whatever the module passes and
whatever is in its memory: which numbers an operation answers for, and what the table
comes to hold.
-/

namespace Deed.Host

open Deed.Wasm Deed.Rt Deed.Library
open Deed.Interp (Operation performIo)

/-- The kinds of capabilities. -/
inductive Kind where
  | system
  | console
  | clock
  | dir
  | net
deriving DecidableEq, Repr

def Held.kind : Held → Kind
  | .system => .system
  | .console => .console
  | .clock => .clock
  | .dir _ => .dir
  | .net _ => .net

theorem is_iff_kind {held what : Held} : held.is what = true ↔ held.kind = what.kind := by
  cases held <;> cases what <;> simp [Held.is, Held.kind]

/-- The kind of capability that an import acts on. -/
def acts : Imported → Kind
  | .sys _ => .system
  | .io operation => (takes operation).kind

/-- The kind of capability that an import answers with. -/
def gives : Imported → Option Kind
  | .sys .console => some .console
  | .sys .clock => some .clock
  | .sys .files => some .dir
  | .sys .net => some .net
  | .io .open => some .dir
  | .io .make => some .dir
  | .io .reach => some .net
  | .io _ => none

/-- The number that an answer carries: a narrowing's answer itself, or what is in the `ok`
that an operation's answer points at. -/
def carries (imported : Imported) (answer : Option Value) (memory : Memory) : Option Int :=
  match imported with
  | .sys _ => answer.map fun value => (asI64 value).toInt
  | .io _ => answer.bind fun value =>
      let place := unsigned (asI64 value)
      if memory.read place = some Runtime.OK.toInt then memory.read (place + 8) else none

/-- What an answer hands to the module: a number, for a capability of a kind. -/
def handedOut (imported : Imported) (answer : Option Value) (memory : Memory) :
    List (Int × Kind) :=
  match gives imported, carries imported answer memory with
  | some kind, some number => [(number, kind)]
  | _, _ => []

/-- The numbers of what a table came to hold. -/
def numbers (first last : Nat) : List Int :=
  (List.range' (first + 1) (last - first)).map Int.ofNat

variable {World : Type}

/-- The string that an argument points at ends before the last address there is. -/
def Addressable (memory : Memory) (argument : Option Value) : Prop :=
  ∀ value word, argument = some value → 0 < (asI64 value).toInt →
    memory.load ((asI64 value).toInt.toNat + 8) = some word →
    (asI64 value).toInt.toNat + 16 + unsigned word < 2 ^ 64

/-- What a call has to keep to: it passes no number of something in the table that the host
never answered with, and its strings, the texts it asks for, the clock and the table stay
within their types. -/
structure Allowed (machine : Machine World) (grants : Grants) (display : Interp.Value → Text)
    (state : State (Tree × World)) (ledger : List (Int × Kind)) (lost : List Int)
    (imported : Imported) (arguments : List Value) : Prop where
  unguessed : ∀ value, arguments[0]? = some value → (asI64 value).toInt ∈ lost →
    ∃ kind, ((asI64 value).toInt, kind) ∈ ledger
  addressable : ∀ operation (position : Nat), imported = .io operation →
    position < reads operation → Addressable state.memory arguments[position + 1]?
  short : ∀ operation held texts value later, imported = .io operation →
    Passes state operation arguments held texts →
    performIo machine.platform display operation (.capability held.capability :: texts.map .str)
      (asInterp grants state) = .ok (value, later) → Short value
  clock : imported = .io .now → state.ticks + 1 < 2 ^ 63
  room : state.held.length + 1 < 2 ^ 63

/-- The states that a module can bring a host to, with the numbers that the host answered
and the numbers of what is in the table besides: what was granted at the start, and what a
call put there whose answer found no room.  Between its calls the module may do anything
to its memory. -/
inductive Reached (machine : Machine World) (grants : Grants) (display : Interp.Value → Text) :
    State (Tree × World) → List (Int × Kind) → List Int → Prop
  | start {world : Tree × World} {memory : Memory} :
      (∀ root, grants.files = some root → machine.platform.canonicalize world root = some root) →
      Reached machine grants display (grants.intoHost world memory) [(1, .system)]
        (numbers 1 grants.held.length)
  | answered {state after : State (Tree × World)} {ledger : List (Int × Kind)}
      {lost : List Int} {imported : Imported} {arguments : List Value} {answer : Option Value}
      {memory : Memory} :
      Reached machine grants display state ledger lost → grants.offers imported = true →
      Allowed machine grants display state ledger lost imported arguments →
      HostM.ran (grants.call machine.platform imported arguments) state = (.ok answer, after) →
      Reached machine grants display { after with memory := memory }
        (ledger ++ handedOut imported answer after.memory) lost
  | refused {state after : State (Tree × World)} {ledger : List (Int × Kind)}
      {lost : List Int} {imported : Imported} {arguments : List Value} {why : Text}
      {memory : Memory} :
      Reached machine grants display state ledger lost → grants.offers imported = true →
      Allowed machine grants display state ledger lost imported arguments →
      HostM.ran (grants.call machine.platform imported arguments) state =
        (.error (.refused why), after) →
      Reached machine grants display { after with memory := memory } ledger
        (lost ++ numbers state.held.length after.held.length)

/-- Whether something in the table is within what was granted. -/
def Within (grants : Grants) : Held → Prop
  | .dir path => ∃ root, grants.files = some root ∧ root <+: path
  | .net reach => ∃ granted, grants.network = some granted ∧
      ∀ url target, reach.resolve url = .ok target → granted.resolve url = .ok target
  | _ => True

variable {machine : Machine World} {grants : Grants} {display : Interp.Value → Text}
  {state after : State (Tree × World)} {ledger : List (Int × Kind)} {lost : List Int}
  {imported : Imported} {arguments : List Value} {operation : Operation} {held : Held}
  {texts : List Text} {value : Interp.Value} {interp later : Interp (Tree × World)}

/-! ## One call -/

theorem text_addressable {memory : Memory} {argument : Option Value}
    (addressable : Addressable memory argument) : text memory argument ≠ .error .panicked := by
  intro stops
  unfold text at stops
  split at stops
  · exact absurd stops (by simp)
  · rename_i value
    split at stops
    · exact absurd stops (by simp)
    · rename_i positive
      dsimp only at stops
      split at stops
      · exact absurd stops (by simp)
      · rename_i word load
        have below := addressable value word rfl (by omega) load
        rw [if_neg (by omega)] at stops
        split at stops
        · exact absurd stops (by simp)
        · exact absurd stops (by simp)

/-- How a call ends: turned down before anything was done, with a field of `System`, or with
what the interpreter answers, written out. -/
inductive Ends (machine : Machine World) (grants : Grants) (display : Interp.Value → Text)
    (state : State (Tree × World)) (arguments : List Value) : Imported → Prop
  | refused {imported : Imported} (why : Text) :
      HostM.ran (grants.call machine.platform imported arguments) state =
        (.error (.refused why), state) →
      Ends machine grants display state arguments imported
  | narrowed {field : Field} :
      standsFor state.held arguments[0]? = some .system →
      HostM.ran (grants.call machine.platform (.sys field) arguments) state =
        (.ok (handle state.held (narrowsTo grants field)), state) →
      Ends machine grants display state arguments (.sys field)
  | performed {operation : Operation} {held : Held} {texts : List Text} {value : Interp.Value}
      {later : Interp (Tree × World)} {outcome : Except Ended (Option Value)} {memory : Memory} :
      Passes state operation arguments held texts →
      performIo machine.platform display operation
        (.capability held.capability :: texts.map .str) (asInterp grants state) =
        .ok (value, later) →
      HostM.ran (grants.call machine.platform (.io operation) arguments) state =
        (outcome, { resumed state later with
          held := interning state.held value, memory := memory }) →
      (∀ ended, outcome = .error ended → ended = noRoom) →
      (∀ answer, outcome = .ok answer →
        Handed (interning state.held value) value answer memory) →
      Ends machine grants display state arguments (.io operation)

theorem ends_narrow {field : Field} :
    Ends machine grants display state arguments (.sys field) := by
  by_cases stands : standsFor state.held arguments[0]? = some .system
  · exact .narrowed stands (ran_narrow stands)
  · have wrong : ∀ held, standsFor state.held arguments[0]? = some held →
        held.is .system = false := by
      intro held found
      cases held with
      | system => exact absurd found stands
      | _ => rfl
    cases field <;> exact .refused _ (ran_bind_error (ran_require_wrong wrong))

theorem ends_performed
    (allowed : Allowed machine grants display state ledger lost (.io operation) arguments)
    (stands : standsFor state.held arguments[0]? = some held)
    (kind : held.is (takes operation) = true)
    (read : ∀ position, position < reads operation →
      ∃ found, text state.memory arguments[position + 1]? = .ok (some found)) :
    Ends machine grants display state arguments (.io operation) := by
  choose found read using fun position : Fin (reads operation) => read position position.2
  have passes : Passes state operation arguments held (List.ofFn found) := by
    refine ⟨stands, kind, List.length_ofFn, fun position below => ?_⟩
    rw [List.getElem_ofFn]
    exact read ⟨position, by rwa [List.length_ofFn] at below⟩
  rcases @performIo_ends _ machine.platform display operation held (List.ofFn found)
    (asInterp grants state) kind List.length_ofFn with ⟨value, later, performed⟩ | ⟨rfl, last, -⟩
  swap
  · exact absurd (allowed.clock rfl) last
  have called := @call_io _ _ _ machine.platform grants _ _ _ display passes
  rw [performed] at called
  rcases @settles_reply _ (resumed state later) _
    (allowed.short operation held _ value later rfl passes performed) with
    ⟨outcome, memory, ran, room, handed⟩
  exact .performed passes performed (called.trans ran) room handed

theorem call_ends (allowed : Allowed machine grants display state ledger lost imported arguments) :
    Ends machine grants display state arguments imported := by
  cases imported with
  | sys field => exact ends_narrow
  | io operation =>
      by_cases stands : ∃ held, standsFor state.held arguments[0]? = some held ∧
        held.is (takes operation) = true
      · rcases stands with ⟨held, stands, kind⟩
        by_cases read : ∀ position, position < reads operation →
          ∃ found, text state.memory arguments[position + 1]? = .ok (some found)
        · exact ends_performed allowed stands kind read
        · rcases not_forall.mp read with ⟨position, unread⟩
          rcases Classical.not_imp.mp unread with ⟨below, unread⟩
          rcases @call_unread _ _ _ machine.platform grants operation _ position stands kind below
            (not_exists.mp unread) with ⟨ended, position, below, ran, ⟨why, rfl⟩ | ⟨-, stops⟩⟩
          · exact .refused why ran
          · exact absurd stops
              (text_addressable (allowed.addressable operation position rfl below))
      · have wrong : ∀ held, standsFor state.held arguments[0]? = some held →
            held.is (takes operation) = false := by
          intro held found
          exact Bool.eq_false_iff.mpr fun kind => stands ⟨held, found, kind⟩
        rcases @call_wrong _ _ _ machine.platform grants operation wrong with ⟨why, ran⟩
        exact .refused why ran

/-! ## What a run keeps -/

theorem mem_numbers {first last : Nat} {number : Int} :
    number ∈ numbers first last ↔ ∃ index : Nat, number = ((index + 1 : Nat) : Int) ∧
      first ≤ index ∧ index < last := by
  rw [numbers, List.mem_map]
  constructor
  · rintro ⟨found, found_in, rfl⟩
    rw [List.mem_range'_1] at found_in
    exact ⟨found - 1, by rw [show found - 1 + 1 = found by omega]; rfl, by omega, by omega⟩
  · rintro ⟨index, rfl, above, below⟩
    exact ⟨index + 1, List.mem_range'_1.mpr (by omega), rfl⟩

/-- Every number in the table is one that was answered or one that is lost, every answered
number is in the table, and everything there is within what was granted. -/
structure Sound (grants : Grants) (state : State (Tree × World)) (ledger : List (Int × Kind))
    (lost : List Int) : Prop where
  known : ∀ (index : Nat) what, state.held[index]? = some what →
    ((index + 1 : Nat) : Int) ∈ lost ∨ (((index + 1 : Nat) : Int), what.kind) ∈ ledger
  honest : ∀ number kind, (number, kind) ∈ ledger → ∃ (index : Nat) (what : Held),
    number = ((index + 1 : Nat) : Int) ∧ state.held[index]? = some what ∧ what.kind = kind
  inside : ∀ what ∈ state.held, Within grants what
  plain : ∀ path, .dir path ∈ state.held → state.world.1.Plain path

theorem sound_start {world : Tree × World} {memory : Memory}
    (canonical : ∀ root, grants.files = some root →
      machine.platform.canonicalize world root = some root) :
    Sound grants (grants.intoHost world memory) [(1, .system)]
      (numbers 1 grants.held.length) := by
  have dirs : ∀ path, Held.dir path ∈ grants.held → grants.files = some path := by
    intro path there
    unfold Grants.held at there
    simp only [List.mem_append, List.mem_singleton, reduceCtorEq, Option.mem_toList,
      Option.map_eq_some_iff, Held.dir.injEq, false_or, and_false, exists_false, or_false] at there
    rcases there with (there | there) | ⟨root, granted, rfl⟩
    · split at there <;> simp at there
    · split at there <;> simp at there
    · exact granted
  constructor
  · intro index what stands
    rcases index with _ | index
    · right
      rw [show what = .system from (Option.some.inj stands).symm]
      exact List.mem_singleton_self _
    · left
      have below := (List.getElem?_eq_some_iff.mp stands).1
      exact mem_numbers.mpr ⟨index + 1, rfl, by omega, below⟩
  · intro number kind answered
    rcases Prod.mk.inj (List.mem_singleton.mp answered) with ⟨rfl, rfl⟩
    exact ⟨0, .system, rfl, rfl, rfl⟩
  · intro what there
    cases what with
    | dir path => exact ⟨path, dirs path there, List.prefix_rfl⟩
    | net reach =>
        unfold Grants.intoHost Grants.held at there
        simp only [List.mem_append, List.mem_singleton, reduceCtorEq, Option.mem_toList,
          Option.map_eq_some_iff, Held.net.injEq, false_or, and_false, exists_false,
          or_false] at there
        rcases there with (there | there) | ⟨granted, given, rfl⟩
        · split at there <;> simp at there
        · split at there <;> simp at there
        · exact ⟨granted, given, fun _ _ resolved => resolved⟩
    | _ => trivial
  · intro path there
    exact (Files.locate_found
      (Interp.canonicalize_eq_some.mp (canonical path (dirs path there)))).plain

theorem carries_tagged {word placed : Value} {tag : Int64} {memory : Memory}
    (tagged : Tagged tag placed word memory) :
    carries (.io operation) (some word) memory =
      if tag.toInt = Runtime.OK.toInt then some (asI64 placed).toInt else none := by
  rcases tagged with ⟨place, small, rfl, first, second⟩
  have here : unsigned (asI64 (address place)) = place := by
    show unsigned (Int64.ofNat place) = place
    rw [← Int64.ofInt_eq_ofNat]
    exact unsigned_ofInt small
  rw [carries, Option.bind_some]
  simp only [here, first, second, Option.some.injEq]

theorem performOpen_shape {platform : Platform (Tree × World)} {world : Tree × World}
    {root : Path} {name : Text} :
    (∃ why, Interp.performOpen platform world root name = .err (.str why)) ∨
      ∃ path, Interp.performOpen platform world root name = .ok (.capability (.dir path)) := by
  unfold Interp.performOpen
  split
  · split
    · exact Or.inr ⟨_, rfl⟩
    · exact Or.inl ⟨_, rfl⟩
  · exact Or.inl ⟨_, rfl⟩

theorem performMake_shape {platform : Platform (Tree × World)} {world : Tree × World}
    {root : Path} {name : Text} :
    (∃ why, (Interp.performMake platform world root name).1 = .err (.str why)) ∨
      ∃ path, (Interp.performMake platform world root name).1 =
        .ok (.capability (.dir path)) := by
  unfold Interp.performMake
  split
  · split
    · exact Or.inl ⟨_, rfl⟩
    · split
      · split
        · exact Or.inr ⟨_, rfl⟩
        · exact Or.inl ⟨_, rfl⟩
      · exact Or.inl ⟨_, rfl⟩
  · exact Or.inl ⟨_, rfl⟩

/-- What an operation answers that hands out capabilities: one of its kind, or an error. -/
theorem answer_shape {kind : Kind} (gives_ : gives (.io operation) = some kind)
    (run : performIo machine.platform display operation
      (.capability held.capability :: texts.map .str) interp = .ok (value, later)) :
    (∃ why, value = .err (.str why)) ∨ ∃ capability, value = .ok (.capability capability) ∧
      (heldOf capability).kind = kind := by
  cases operation <;> simp only [gives, reduceCtorEq, Option.some.injEq] at gives_
  case «open» =>
      cases held <;> simp only [performIo, List.head?_cons, Held.capability, reduceCtorEq] at run
      rcases Interp.bind_ok run with ⟨name, -, run⟩
      rw [← (Prod.mk.inj (Except.ok.inj run)).1, ← gives_]
      rcases performOpen_shape with failed | ⟨path, opened⟩
      · exact Or.inl failed
      · exact Or.inr ⟨_, opened, rfl⟩
  case make =>
      cases held <;> simp only [performIo, List.head?_cons, Held.capability, reduceCtorEq] at run
      rcases Interp.bind_ok run with ⟨name, -, run⟩
      rw [← (Prod.mk.inj (Except.ok.inj run)).1, ← gives_]
      rcases performMake_shape with failed | ⟨path, made⟩
      · exact Or.inl failed
      · exact Or.inr ⟨_, made, rfl⟩
  case reach =>
      cases held <;> simp only [performIo, List.head?_cons, Held.capability, reduceCtorEq] at run
      rcases Interp.bind_ok run with ⟨name, -, run⟩
      rw [← gives_]
      split at run
      · exact Or.inr ⟨_, (Prod.mk.inj (Except.ok.inj run)).1.symm, rfl⟩
      · exact Or.inl ⟨_, (Prod.mk.inj (Except.ok.inj run)).1.symm⟩

theorem interning_none (none : Interp.handed value = none) :
    interning state.held value = state.held := by
  induction value using Interp.Value.carried with
  | capability capability => exact absurd none (by simp [Interp.handed])
  | result ok value ih => exact ih none
  | _ => rfl

/-- The other operations hand out nothing. -/
theorem interning_other (none : gives (.io operation) = none)
    (run : performIo machine.platform display operation
      (.capability held.capability :: texts.map .str) interp = .ok (value, later)) :
    interning state.held value = state.held := by
  rcases Interp.performIo_cases run with ⟨handed, -⟩ | ⟨rfl, -⟩ | ⟨rfl, -⟩ | ⟨rfl, -⟩
  · exact interning_none handed
  · exact absurd none (by simp [gives])
  · exact absurd none (by simp [gives])
  · exact absurd none (by simp [gives])

theorem mem_of_standsFor {argument : Option Value} {table : List Held}
    (stands : standsFor table argument = some held) : held ∈ table := by
  rcases standsFor_eq_some.mp stands with ⟨_, index, -, -, there⟩
  exact List.mem_of_getElem? there

theorem capability_dir {root : Path} (same : held.capability = .dir root) : held = .dir root := by
  cases held <;> simp only [Held.capability, Interp.Capability.dir.injEq, reduceCtorEq] at same
  rw [same]

theorem capability_net {reach : Reach} (same : held.capability = .net reach) :
    held = .net reach := by
  cases held <;> simp only [Held.capability, Interp.Capability.net.injEq, reduceCtorEq] at same
  rw [same]

/-- Whatever was added to the table by a call that ended is within what was granted, and so
is what was there. -/
theorem performed_inside (sound : Sound grants state ledger lost)
    (passes : Passes state operation arguments held texts)
    (run : performIo machine.platform display operation
      (.capability held.capability :: texts.map .str) (asInterp grants state) =
      .ok (value, later)) :
    (∀ what ∈ interning state.held value, Within grants what) ∧
      ∀ path, .dir path ∈ interning state.held value → later.world.1.Plain path := by
  have there := mem_of_standsFor passes.stands
  have keeps := Interp.performIo_keeps run
  have stays : ∀ path, .dir path ∈ state.held → later.world.1.Plain path :=
    fun path there => keeps.plain (sound.plain path there)
  have added (what : Held) (within : Within grants what)
      (plain : ∀ path, what = .dir path → later.world.1.Plain path)
      (same : interning state.held value = intern state.held what) :
      (∀ what ∈ interning state.held value, Within grants what) ∧
        ∀ path, .dir path ∈ interning state.held value → later.world.1.Plain path := by
    rw [same]
    constructor
    · intro other other_in
      rcases mem_intern.mp other_in with there | rfl
      · exact sound.inside other there
      · exact within
    · intro path path_in
      rcases mem_intern.mp path_in with there | new
      · exact stays path there
      · exact plain path new.symm
  rcases Interp.performIo_cases run with ⟨none, -⟩ | ⟨-, root, name, given, rfl, opened⟩ |
    ⟨-, root, name, given, made⟩ | ⟨-, reach, host, narrowed, given, rfl, narrows, rfl⟩
  · rw [interning_none none]
    exact ⟨sound.inside, stays⟩
  · rcases capability_dir (Interp.Value.capability.inj (Option.some.inj given)) with rfl
    rcases performOpen_shape with ⟨why, shape⟩ | ⟨path, shape⟩
    · rw [shape] at opened
      rw [opened, interning_none rfl]
      exact ⟨sound.inside, stays⟩
    · rcases Interp.performOpen_hands shape with ⟨canonical, under⟩
      rcases sound.inside _ there with ⟨granted, files, above⟩
      refine added (.dir path) ⟨granted, files, above.trans under⟩ ?_ ?_
      · rintro other same
        rw [← Held.dir.inj same]
        exact (Files.locate_found (Interp.canonicalize_eq_some.mp canonical)).plain
      · rw [opened, shape]
        rfl
  · rcases capability_dir (Interp.Value.capability.inj (Option.some.inj given)) with rfl
    rcases performMake_shape with ⟨why, shape⟩ | ⟨path, shape⟩
    · rw [made] at shape
      rw [show value = .err (.str why) from shape, interning_none rfl]
      exact ⟨sound.inside, stays⟩
    · rw [made] at shape
      rw [show value = _ from shape] at made
      rcases Interp.performMake_hands (sound.plain root there) made with ⟨rfl, standing⟩
      rcases sound.inside _ there with ⟨granted, files, above⟩
      refine added (.dir (root ++ [name])) ⟨granted, files, above.trans (List.prefix_append _ _)⟩ ?_ ?_
      · rintro other same
        rw [← Held.dir.inj same]
        exact Files.Settled.plain (Or.inl standing)
      · rw [show value = _ from shape]
        rfl
  · rcases capability_net (Interp.Value.capability.inj (Option.some.inj given)) with rfl
    rcases sound.inside _ there with ⟨granted, network, within⟩
    refine added (.net narrowed) ⟨granted, network, fun url target resolved => ?_⟩ nofun rfl
    have chain : reach.narrowAll [host] = .ok narrowed := by
      rw [Reach.narrowAll, List.foldlM_cons, narrows]
      rfl
    exact within url target (Reach.narrowAll_resolve chain resolved)

/-- A run goes on when nothing was added to the table. -/
theorem Sound.same (sound : Sound grants state ledger lost) (held : after.held = state.held)
    (plain : ∀ path, .dir path ∈ state.held → after.world.1.Plain path) :
    Sound grants after ledger lost := by
  constructor
  · rw [held]
    exact sound.known
  · rw [held]
    exact sound.honest
  · rw [held]
    exact sound.inside
  · rw [held]
    exact plain

/-- A run goes on when something was added and its number answered. -/
theorem Sound.intern {index : Nat} {what : Held} (sound : Sound grants state ledger lost)
    (held : after.held = Host.intern state.held what) (stands : after.held[index]? = some what)
    (inside : ∀ what ∈ after.held, Within grants what)
    (plain : ∀ path, .dir path ∈ after.held → after.world.1.Plain path) :
    Sound grants after (ledger ++ [(((index + 1 : Nat) : Int), what.kind)]) lost := by
  rcases (held ▸ prefix_intern : state.held <+: after.held) with ⟨more, whole⟩
  have front {other : Nat} {found : Held} (there : state.held[other]? = some found) :
      after.held[other]? = some found := by
    rw [← whole, List.getElem?_append_left (List.getElem?_eq_some_iff.mp there).1]
    exact there
  constructor
  · intro other found there
    by_cases old : other < state.held.length
    · rw [← whole, List.getElem?_append_left old] at there
      rcases sound.known other found there with gone | answered
      · exact Or.inl gone
      · exact Or.inr (List.mem_append_left _ answered)
    · -- What is new in the table is what was answered for.
      right
      rw [held, Host.intern] at there stands
      split at there
      · exact absurd (List.getElem?_eq_some_iff.mp there).1 old
      · rename_i absent
        rw [if_neg absent] at stands
        have last : index = state.held.length := by
          by_contra other
          have below := (List.getElem?_eq_some_iff.mp stands).1
          rw [List.length_append, List.length_singleton] at below
          rw [List.getElem?_append_left (by omega)] at stands
          exact absent (List.mem_of_getElem? stands)
        have same : other = state.held.length := by
          have below := (List.getElem?_eq_some_iff.mp there).1
          rw [List.length_append, List.length_singleton] at below
          omega
        rw [same, ← last, stands] at there
        rw [same, ← last, ← Option.some.inj there]
        exact List.mem_append_right _ (List.mem_singleton_self _)
  · intro number kind answered
    rcases List.mem_append.mp answered with old | new
    · rcases sound.honest number kind old with ⟨other, found, rfl, there, rfl⟩
      exact ⟨other, found, rfl, front there, rfl⟩
    · rcases Prod.mk.inj (List.mem_singleton.mp new) with ⟨rfl, rfl⟩
      exact ⟨index, what, rfl, stands, rfl⟩
  · exact inside
  · exact plain

theorem sound_performed {memory after_ : Memory} {answer : Option Value}
    (sound : Sound grants state ledger lost)
    (passes : Passes state operation arguments held texts)
    (run : performIo machine.platform display operation
      (.capability held.capability :: texts.map .str) (asInterp grants state) =
      .ok (value, later))
    (handed : Handed (interning state.held value) value answer memory)
    (room : state.held.length + 1 < 2 ^ 63) :
    Sound grants { resumed state later with
        held := interning state.held value, memory := after_ }
      (ledger ++ handedOut (.io operation) answer memory) lost := by
  rcases performed_inside sound passes run with ⟨inside, plain⟩
  cases gives_ : gives (.io operation) with
  | none =>
      rw [handedOut, gives_, List.append_nil]
      have same := @interning_other _ _ _ state _ _ _ _ _ _ gives_ run
      rw [same] at plain ⊢
      exact sound.same rfl plain
  | some kind =>
      rcases answer_shape gives_ run with ⟨why, rfl⟩ | ⟨capability, rfl, same⟩
      · rcases handed false _ rfl with ⟨word, placed, rfl, tagged, -⟩
        rw [handedOut, gives_, carries_tagged tagged, if_neg (by decide), List.append_nil]
        exact sound.same rfl plain
      · rcases handed true _ rfl with ⟨word, placed, rfl, tagged, index, stands, rfl⟩
        have below := (List.getElem?_eq_some_iff.mp stands).1
        have most := @length_intern state.held (heldOf capability)
        have small : index + 1 < 2 ^ 63 := by
          change index < (Host.intern state.held (heldOf capability)).length at below
          omega
        have ok : (tagOf true).toInt = Runtime.OK.toInt := rfl
        rw [handedOut, gives_, carries_tagged tagged, if_pos ok, toInt_handleValue small, ← same]
        exact sound.intern rfl stands inside plain

theorem sound_narrowed {field : Field} {memory after_ : Memory}
    (sound : Sound grants state ledger lost) (room : state.held.length + 1 < 2 ^ 63) :
    Sound grants { state with memory := after_ }
      (ledger ++ handedOut (.sys field) (handle state.held (narrowsTo grants field)) memory)
      lost := by
  have kind : gives (.sys field) = some (narrowsTo grants field).kind := by
    cases field <;> rfl
  by_cases there : narrowsTo grants field ∈ state.held
  · rcases handle_of_mem there with ⟨index, stands, handed⟩
    have below := (List.getElem?_eq_some_iff.mp stands).1
    have carried : carries (.sys field) (handle state.held (narrowsTo grants field)) memory =
        some ((index + 1 : Nat) : Int) := by
      rw [handed, carries, Option.map_some, toInt_handleValue (by omega)]
    rw [handedOut, kind, carried]
    refine sound.intern ?_ stands sound.inside sound.plain
    rw [Host.intern, if_pos there]
  · rw [handedOut, kind, handle_of_notMem there]
    dsimp only [carries, Option.map_none]
    rw [List.append_nil]
    exact sound.same rfl sound.plain

/-- A run goes on when the answer found no room: what was added to the table is lost. -/
theorem sound_lost {memory : Memory} (sound : Sound grants state ledger lost)
    (passes : Passes state operation arguments held texts)
    (run : performIo machine.platform display operation
      (.capability held.capability :: texts.map .str) (asInterp grants state) =
      .ok (value, later)) :
    Sound grants { resumed state later with
        held := interning state.held value, memory := memory }
      ledger (lost ++ numbers state.held.length (interning state.held value).length) := by
  rcases performed_inside sound passes run with ⟨inside, plain⟩
  rcases (prefix_interning : state.held <+: interning state.held value) with ⟨more, whole⟩
  constructor
  · intro index what there
    change (interning state.held value)[index]? = some what at there
    by_cases old : index < state.held.length
    · rw [← whole, List.getElem?_append_left old] at there
      rcases sound.known index what there with gone | answered
      · exact Or.inl (List.mem_append_left _ gone)
      · exact Or.inr answered
    · have below := (List.getElem?_eq_some_iff.mp there).1
      exact Or.inl (List.mem_append_right _ (mem_numbers.mpr ⟨index, rfl, by omega, below⟩))
  · intro number kind answered
    rcases sound.honest number kind answered with ⟨index, what, rfl, there, rfl⟩
    refine ⟨index, what, rfl, ?_, rfl⟩
    show (interning state.held value)[index]? = some what
    rw [← whole, List.getElem?_append_left (List.getElem?_eq_some_iff.mp there).1]
    exact there
  · exact inside
  · exact plain

theorem Reached.sound (reached : Reached machine grants display state ledger lost) :
    Sound grants state ledger lost := by
  induction reached with
  | start canonical => exact sound_start canonical
  | answered reached offered allowed ran sound =>
      cases call_ends allowed with
      | refused why refused =>
          rw [refused] at ran
          exact absurd (Prod.mk.inj ran).1 (by simp)
      | narrowed stands narrowed =>
          rw [narrowed] at ran
          rcases Prod.mk.inj ran with ⟨answer, rfl⟩
          rw [← Except.ok.inj answer]
          exact sound_narrowed sound allowed.room
      | performed passes run performed room handed =>
          rw [performed] at ran
          rcases Prod.mk.inj ran with ⟨rfl, rfl⟩
          exact sound_performed sound passes run (handed _ rfl) allowed.room
  | refused reached offered allowed ran sound =>
      cases call_ends allowed with
      | refused why refused =>
          rw [refused] at ran
          rcases Prod.mk.inj ran with ⟨-, rfl⟩
          rw [numbers, Nat.sub_self, List.range'_zero, List.map_nil, List.append_nil]
          exact sound.same rfl sound.plain
      | narrowed stands narrowed =>
          rw [narrowed] at ran
          exact absurd (Prod.mk.inj ran).1 (by simp)
      | performed passes run performed room handed =>
          rw [performed] at ran
          rcases Prod.mk.inj ran with ⟨-, rfl⟩
          exact sound_lost sound passes run

/-- In every state that a module can bring a host to, a call that keeps to what is allowed
answers only for a number that the host answered for that kind of capability, or for the
`System` that the module was started with; nothing in the table is beyond what was granted;
and the call ends in an answer or a refusal. -/
theorem handles_unforgeable
    (reached : Reached machine grants display state ledger lost)
    (allowed : Allowed machine grants display state ledger lost imported arguments) :
    (∀ answer after, HostM.ran (grants.call machine.platform imported arguments) state =
        (.ok answer, after) →
      ∃ value, arguments[0]? = some value ∧ ((asI64 value).toInt, acts imported) ∈ ledger) ∧
    (∀ what ∈ state.held, Within grants what) ∧
    (HostM.ran (grants.call machine.platform imported arguments) state).1 ≠
      .error .panicked := by
  have sound := reached.sound
  have answers {what : Held} (stands : standsFor state.held arguments[0]? = some what) :
      ∃ value, arguments[0]? = some value ∧ ((asI64 value).toInt, what.kind) ∈ ledger := by
    rcases standsFor_eq_some.mp stands with ⟨value, index, passed, number, there⟩
    refine ⟨value, passed, ?_⟩
    rw [number]
    rcases sound.known index what there with gone | answered
    · rcases allowed.unguessed value passed (number ▸ gone) with ⟨kind, answered⟩
      rw [number] at answered
      rcases sound.honest _ _ answered with ⟨other, found, same, there_, rfl⟩
      have index_eq : index = other := by omega
      rw [← index_eq, there] at there_
      rw [Option.some.inj there_]
      exact answered
    · exact answered
  refine ⟨?_, sound.inside, ?_⟩
  · intro answer after ran
    cases call_ends allowed with
    | refused why refused =>
        rw [refused] at ran
        exact absurd (Prod.mk.inj ran).1 (by simp)
    | narrowed stands narrowed => exact answers stands
    | performed passes run performed room handed =>
        rw [acts, ← is_iff_kind.mp passes.kind]
        exact answers passes.stands
  · cases call_ends allowed with
    | refused why refused =>
        rw [refused]
        simp
    | narrowed stands narrowed =>
        rw [narrowed]
        simp
    | performed passes run performed room handed =>
        rw [performed]
        intro panicked
        exact absurd (room _ panicked) (by simp [noRoom])

/-- A host that grants a clock and an environment without variables. -/
def clockAndEnvironment : Grants := { Grants.none with clock := true, environment := some [] }

/-- One page of memory with zeros. -/
def blankPage : Memory := ⟨fun _ => 0, 1, fun _ _ => rfl⟩

theorem reached_clock (memory : Memory) :
    Reached Interp.machineOfFiles clockAndEnvironment (fun _ => [])
      (clockAndEnvironment.intoHost Interp.rooted.world memory) [(1, .system)] [2] :=
  .start nofun

/-- The clock can be taken out of the `System` handle. -/
theorem handles_unforgeable_clock :
    (∀ answer after, HostM.ran (clockAndEnvironment.call Interp.machineOfFiles.platform
        (.sys .clock) [.i64 1])
        (clockAndEnvironment.intoHost Interp.rooted.world blankPage) = (.ok answer, after) →
      ∃ value, [Value.i64 1][0]? = some value ∧
        ((asI64 value).toInt, Kind.system) ∈ [((1 : Int), Kind.system)]) ∧
    (∀ what ∈ clockAndEnvironment.held, Within clockAndEnvironment what) ∧
    (HostM.ran (clockAndEnvironment.call Interp.machineOfFiles.platform (.sys .clock) [.i64 1])
      (clockAndEnvironment.intoHost Interp.rooted.world blankPage)).1 ≠ .error .panicked := by
  refine handles_unforgeable (reached_clock blankPage) ?_
  constructor
  · intro value passed guessed
    rw [← Option.some.inj passed] at guessed
    exact absurd guessed (by decide)
  · exact nofun
  · exact nofun
  · exact nofun
  · decide

/-- The clock answers for a number that was never answered, and a length that does not fit
ends the host. -/
theorem handle_guessed :
    Reached Interp.machineOfFiles clockAndEnvironment (fun _ => [])
      (clockAndEnvironment.intoHost Interp.rooted.world blankPage) [(1, .system)] [2] ∧
    (HostM.ran (clockAndEnvironment.call Interp.machineOfFiles.platform (.io .now) [.i64 2])
      (clockAndEnvironment.intoHost Interp.rooted.world blankPage)).1 = .ok (some (.i64 1)) ∧
    ((2 : Int), Kind.clock) ∉ [((1 : Int), Kind.system)] ∧
    (HostM.ran (clockAndEnvironment.call Interp.machineOfFiles.platform (.io .env)
        [.i64 1, .i64 8])
      (clockAndEnvironment.intoHost Interp.rooted.world (blankPage.put 16 (-1)))).1 =
        .error .panicked := by
  refine ⟨reached_clock blankPage, by decide, by decide, by decide⟩

end Deed.Host
