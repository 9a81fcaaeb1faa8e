import Deed.Fetch.Cache

/-!
# What stands under a hash

In a run whose steps are orderly a file that has got its final name is never emptied again,
and whoever still writes to it writes what is there already.
-/

namespace Deed.Fetch

open Deed.Library

/-! ## Names -/

theorem Hash.length (hash : Hash) : hash.text.length = 64 := by
  have spelled := hash.spelled
  rw [isDigest, Bool.and_eq_true] at spelled
  exact eq_of_beq spelled.1

theorem path_inj {one other : Hash} (same : one.path = other.path) : one = other := by
  cases one
  cases other
  exact Hash.mk.injEq .. ▸ same

theorem temporary_inj {one other : Hash} (same : one.temporary = other.temporary) :
    one = other := by
  apply path_inj
  have lists : one.text.toList ++ ".tmp".toList = other.text.toList ++ ".tmp".toList := by
    rw [← String.toList_append, ← String.toList_append]
    exact congrArg String.toList same
  exact String.toList_inj.mp (List.append_cancel_right lists)

theorem temporary_ne_path (one other : Hash) : one.temporary ≠ other.path := by
  intro same
  have lengths : one.text.length + 4 = other.text.length := by
    rw [← show other.path = other.text from rfl, ← same]
    exact (String.length_append one.text ".tmp").symm
  rw [one.length, other.length] at lengths
  exact absurd lengths (by decide)

/-! ## The invariant -/

/-- A file that a caller opened last holds what it has written. -/
def Filled (state : State) (file : Nat) (caller : Caller) : Prop :=
  match caller.stage with
  | .contains => False
  | .readLocation => False
  | .verify => False
  | .create => False
  | .write open_ written =>
      open_ = file ∧ Agrees caller.bytes (state.disk.contents file) written
  | _ => state.disk.contents file = caller.bytes

/-- A file that nobody empties any more, with everything in it. -/
structure Sealed (state : State) (hash : Hash) (file : Nat) : Prop where
  made : file < state.disk.made
  opener : ∃ other last, state.opener file = some other ∧
    state.callers other = some last ∧ last.hash = hash ∧ last.Finished
  final : ∀ name : Hash, state.disk.names name.temporary ≠ some file

/-- What a caller knows at its stage. -/
def Well (state : State) (caller : Caller) : Prop :=
  match caller.stage with
  | .create => verify caller.hash caller.bytes = true
  | .write file written =>
      written ≤ caller.bytes.length ∧ ∃ other, state.opener file = some other
  | .read file got =>
      Sealed state caller.hash file ∧ got = (state.disk.contents file).take got.length
  | .handed got => digest got = caller.hash.text
  | _ => True

structure Sound (state : State) : Prop where
  fresh : ∀ name file, state.disk.names name = some file → file < state.disk.made
  single : ∀ name other file, state.disk.names name = some file →
    state.disk.names other = some file → name = other
  named : ∀ name file, state.disk.names name = some file → ∃ other last,
    state.opener file = some other ∧ state.callers other = some last ∧
      (name = last.hash.temporary ∨ name = last.hash.path)
  opened : ∀ file other, state.opener file = some other → ∃ last,
    state.callers other = some last ∧ verify last.hash last.bytes = true ∧
      Filled state file last
  standing : ∀ (hash : Hash) file, state.disk.names hash.path = some file →
    Sealed state hash file
  callers : ∀ index caller, state.callers index = some caller → Well state caller

variable {state : State} {index : Nat} {caller : Caller}

/-- A finished caller's file is what it was meant to be. -/
theorem filled_finished {file : Nat} (filled : Filled state file caller)
    (finished : caller.Finished) : state.disk.contents file = caller.bytes := by
  rw [Filled] at filled
  cases stage : caller.stage with
  | write open_ written =>
      rw [stage] at filled
      rw [finished open_ written stage] at filled
      exact agrees_whole.mp filled.2
  | contains => rw [stage] at filled; exact filled.elim
  | readLocation => rw [stage] at filled; exact filled.elim
  | verify => rw [stage] at filled; exact filled.elim
  | create => rw [stage] at filled; exact filled.elim
  | open_ => rw [stage] at filled; exact filled
  | read at_ got => rw [stage] at filled; exact filled
  | handed got => rw [stage] at filled; exact filled
  | failed => rw [stage] at filled; exact filled

/-- And so is a sealed file. -/
theorem Sound.sealed_digest (sound : Sound state) {hash : Hash} {file : Nat}
    (done : Sealed state hash file) : digest (state.disk.contents file) = hash.text := by
  rcases done.opener with ⟨other, last, opened, there, rfl, finished⟩
  rcases sound.opened file other opened with ⟨same, found, verified, filled⟩
  cases Option.some.inj (there.symm.trans found)
  rw [filled_finished filled finished]
  exact eq_of_beq verified

theorem Sound.kept (sound : Sound state) : state.Kept where
  stands := fun hash file stands => sound.sealed_digest (sound.standing hash file stands)
  handed := by
    intro index caller got there stage
    have well := sound.callers index caller there
    rw [Well, stage] at well
    exact well

/-- Nobody opened a file who has not come to it yet. -/
theorem Sound.not_opener (sound : Sound state) (there : state.callers index = some caller)
    (early : ∀ file, ¬Filled state file caller) (file : Nat) :
    state.opener file ≠ some index := by
  intro opened
  rcases sound.opened file index opened with ⟨last, found, -, filled⟩
  cases Option.some.inj (there.symm.trans found)
  exact early file filled

/-! ## Steps that leave the directory -/

/-- A caller that goes on without touching the directory, and stands by what it wrote. -/
structure Stands (state : State) (index : Nat) (after : Caller) : Prop where
  kept : ∀ file, state.opener file = some index → ∀ last, state.callers index = some last →
    after.hash = last.hash ∧ after.bytes = last.bytes ∧
      (Filled state file last → Filled state file after) ∧ (last.Finished → after.Finished)

variable {after : Caller}

/-- The state with one caller changed. -/
def State.with (state : State) (index : Nat) (after : Caller) : State :=
  { state with callers := Function.update state.callers index (some after) }

theorem with_self : (state.with index after).callers index = some after :=
  Function.update_self ..

theorem with_other {other : Nat} (apart : other ≠ index) :
    (state.with index after).callers other = state.callers other :=
  Function.update_of_ne apart ..

theorem Sealed.quiet {hash : Hash} {file : Nat} (done : Sealed state hash file)
    (stands : Stands state index after) : Sealed (state.with index after) hash file := by
  refine ⟨done.made, ?_, done.final⟩
  rcases done.opener with ⟨other, last, opened, there, hashed, finished⟩
  by_cases same : other = index
  · rw [same] at opened there
    rcases stands.kept file opened last there with ⟨hash_, -, -, finishes⟩
    exact ⟨index, after, opened, with_self, hash_.trans hashed,
      finishes finished⟩
  · exact ⟨other, last, opened, (with_other same).trans there, hashed, finished⟩

theorem Well.quiet {other : Caller} (well : Well state other)
    (stands : Stands state index after) : Well (state.with index after) other := by
  rw [Well] at well ⊢
  cases stage : other.stage with
  | read file got =>
      rw [stage] at well
      exact ⟨well.1.quiet stands, well.2⟩
  | contains => exact trivial
  | readLocation => exact trivial
  | verify => exact trivial
  | create => rw [stage] at well; exact well
  | write file written => rw [stage] at well; exact well
  | open_ => exact trivial
  | handed got => rw [stage] at well; exact well
  | failed => exact trivial

theorem Sound.quiet (sound : Sound state) (stands : Stands state index after)
    (well : Well state after) : Sound (state.with index after) where
  fresh := sound.fresh
  single := sound.single
  named := by
    intro name file found
    rcases sound.named name file found with ⟨other, last, opened, there, called⟩
    by_cases same : other = index
    · rw [same] at opened there
      rcases stands.kept file opened last there with ⟨hash_, -⟩
      exact ⟨index, after, opened, with_self, hash_ ▸ called⟩
    · exact ⟨other, last, opened, (with_other same).trans there, called⟩
  opened := by
    intro file other opened
    rcases sound.opened file other opened with ⟨last, there, verified, filled⟩
    by_cases same : other = index
    · rw [same] at opened there
      rcases stands.kept file opened last there with ⟨hash_, bytes, fills, -⟩
      rw [same]
      refine ⟨after, with_self, ?_, fills filled⟩
      rw [hash_, bytes]
      exact verified
    · exact ⟨last, (with_other same).trans there, verified, filled⟩
  standing := fun hash file found => (sound.standing hash file found).quiet stands
  callers := by
    intro other found there
    by_cases same : other = index
    · rw [same] at there
      cases Option.some.inj (with_self.symm.trans there)
      exact well.quiet stands
    · exact (sound.callers other found ((with_other same).symm.trans there)).quiet stands

/-! ## Opening the temporary file -/

/-- What opening a name for writing leaves as it was. -/
theorem create_cases (disk : Shelf String UInt8) (name : String) :
    (∃ file, disk.names name = some file ∧ disk.create name =
      (file, { disk with contents := Function.update disk.contents file [] })) ∨
    (disk.names name = none ∧ disk.create name =
      (disk.made, {
        names := Function.update disk.names name (some disk.made)
        contents := Function.update disk.contents disk.made []
        made := disk.made + 1 })) := by
  rw [Shelf.create]
  cases found : disk.names name with
  | some file => exact Or.inl ⟨file, rfl, rfl⟩
  | none => exact Or.inr ⟨rfl, rfl⟩

/-- The state after a caller has opened a file, which is empty now. -/
def State.opens (state : State) (index : Nat) (caller : Caller) (file : Nat)
    (disk : Shelf String UInt8) : State :=
  { (state.goesOn index caller (.write file 0)) with
    disk, opener := Function.update state.opener file (some index) }

/-- What `create` does to the directory: only the one file is emptied, only the one name may
be new, and no sealed file is touched. -/
structure Opens (state : State) (hash : Hash) (file : Nat) (disk : Shelf String UInt8) :
    Prop where
  emptied : disk.contents file = []
  others : ∀ other, other ≠ file → disk.contents other = state.disk.contents other
  called : disk.names hash.temporary = some file
  names : ∀ name, name ≠ hash.temporary → disk.names name = state.disk.names name
  made : state.disk.made ≤ disk.made
  below : file < disk.made
  apart : ∀ name, name ≠ hash.temporary → state.disk.names name ≠ some file
  fresh : state.disk.names hash.temporary = some file ∨ state.disk.made ≤ file

theorem Sound.creates (sound : Sound state) (hash : Hash) :
    Opens state hash (state.disk.create hash.temporary).1
      (state.disk.create hash.temporary).2 := by
  rcases create_cases state.disk hash.temporary with ⟨file, found, created⟩ | ⟨none, created⟩
  · rw [created]
    refine ⟨Function.update_self .., fun other apart => Function.update_of_ne apart ..,
      found, fun _ _ => rfl, le_refl _, sound.fresh _ _ found, ?_, Or.inl found⟩
    intro name differs there
    exact differs (sound.single name _ file there found)
  · rw [created]
    refine ⟨Function.update_self .., fun other apart => Function.update_of_ne apart ..,
      Function.update_self .., fun name apart => Function.update_of_ne apart ..,
      Nat.le_succ _, Nat.lt_succ_self _, ?_, Or.inr (le_refl _)⟩
    intro name _ there
    exact absurd (sound.fresh name _ there) (lt_irrefl _)

theorem Sound.create (sound : Sound state) {file : Nat} {disk : Shelf String UInt8}
    (there : state.callers index = some caller) (stage : caller.stage = .create)
    (opens : Opens state caller.hash file disk) :
    Sound (state.opens index caller file disk) := by
  have well := sound.callers index caller there
  rw [Well, stage] at well
  have unopened := sound.not_opener there fun file filled => by
    rw [Filled, stage] at filled
    exact filled
  have self : (state.opens index caller file disk).callers index =
      some { caller with stage := .write file 0 } := Function.update_self ..
  have other_ {other : Nat} (apart : other ≠ index) :
      (state.opens index caller file disk).callers other = state.callers other :=
    Function.update_of_ne apart ..
  have openedSelf : (state.opens index caller file disk).opener file = some index :=
    Function.update_self ..
  have openedOther {at_ : Nat} (apart : at_ ≠ file) :
      (state.opens index caller file disk).opener at_ = state.opener at_ :=
    Function.update_of_ne apart ..
  -- Whoever opened another file is another caller.
  have elsewhere {at_ other : Nat} (opened : state.opener at_ = some other) : other ≠ index :=
    fun same => unopened at_ (same ▸ opened)
  have sealed_ {hash : Hash} {at_ : Nat} (done : Sealed state hash at_) :
      at_ ≠ file ∧ Sealed (state.opens index caller file disk) hash at_ := by
    have apart : at_ ≠ file := by
      rintro rfl
      rcases opens.fresh with called | beyond
      · exact done.final _ called
      · exact absurd done.made (Nat.not_lt.mpr beyond)
    rcases done.opener with ⟨other, last, opened, found, hashed, finished⟩
    refine ⟨apart, done.made.trans_le opens.made, ⟨other, last, ?_, ?_, hashed, finished⟩, ?_⟩
    · exact (openedOther apart).trans opened
    · exact (other_ (elsewhere opened)).trans found
    · intro name there
      by_cases same : name.temporary = caller.hash.temporary
      · rw [show (state.opens index caller file disk).disk = disk from rfl, same,
          opens.called] at there
        exact apart (Option.some.inj there).symm
      · exact done.final name ((opens.names _ same).symm.trans there)
  refine ⟨?_, ?_, ?_, ?_, ?_, ?_⟩
  · intro name at_ found
    by_cases same : name = caller.hash.temporary
    · rw [same, show (state.opens index caller file disk).disk = disk from rfl,
        opens.called] at found
      cases found
      exact opens.below
    · exact (sound.fresh name at_ ((opens.names name same).symm.trans found)).trans_le opens.made
  · intro name other at_ found foundOther
    by_cases same : name = caller.hash.temporary
    · by_cases sameOther : other = caller.hash.temporary
      · exact same.trans sameOther.symm
      · rw [same, show (state.opens index caller file disk).disk = disk from rfl,
          opens.called] at found
        cases found
        exact absurd ((opens.names other sameOther).symm.trans foundOther)
          (opens.apart other sameOther)
    · by_cases sameOther : other = caller.hash.temporary
      · rw [sameOther, show (state.opens index caller file disk).disk = disk from rfl,
          opens.called] at foundOther
        cases foundOther
        exact absurd ((opens.names name same).symm.trans found) (opens.apart name same)
      · exact sound.single name other at_ ((opens.names name same).symm.trans found)
          ((opens.names other sameOther).symm.trans foundOther)
  · intro name at_ found
    by_cases same : name = caller.hash.temporary
    · rw [same, show (state.opens index caller file disk).disk = disk from rfl,
        opens.called] at found
      cases found
      exact ⟨index, _, openedSelf, self, Or.inl same⟩
    · have before := (opens.names name same).symm.trans found
      rcases sound.named name at_ before with ⟨other, last, opened, there_, called⟩
      have apart : at_ ≠ file := fun here => opens.apart name same (here ▸ before)
      exact ⟨other, last, (openedOther apart).trans opened,
        (other_ (elsewhere opened)).trans there_, called⟩
  · intro at_ other opened
    by_cases same : at_ = file
    · rw [same] at opened ⊢
      cases Option.some.inj (openedSelf.symm.trans opened)
      refine ⟨_, self, well, rfl, ?_⟩
      show Agrees caller.bytes (disk.contents file) 0
      rw [opens.emptied]
      exact agrees_nil
    · have before := (openedOther same).symm.trans opened
      rcases sound.opened at_ other before with ⟨last, found, verified, filled⟩
      refine ⟨last, (other_ (elsewhere before)).trans found, verified, ?_⟩
      have contents : (state.opens index caller file disk).disk.contents at_ =
          state.disk.contents at_ := opens.others at_ same
      rw [Filled, contents]
      exact filled
  · intro hash at_ found
    have differs : hash.path ≠ caller.hash.temporary :=
      fun same => temporary_ne_path caller.hash hash same.symm
    exact (sealed_ (sound.standing hash at_ ((opens.names _ differs).symm.trans found))).2
  · intro other found there_
    by_cases same : other = index
    · rw [same] at there_
      cases Option.some.inj (self.symm.trans there_)
      exact ⟨Nat.zero_le _, index, openedSelf⟩
    · have before := sound.callers other found ((other_ same).symm.trans there_)
      rw [Well] at before ⊢
      cases at_ : found.stage with
      | read file_ got =>
          rw [at_] at before
          rcases sealed_ before.1 with ⟨apart, done⟩
          refine ⟨done, ?_⟩
          have contents : (state.opens index caller file disk).disk.contents file_ =
              state.disk.contents file_ := opens.others file_ apart
          rw [contents]
          exact before.2
      | write file_ written =>
          rw [at_] at before
          refine ⟨before.1, ?_⟩
          by_cases same : file_ = file
          · exact ⟨index, same ▸ openedSelf⟩
          · rcases before.2 with ⟨last, opened⟩
            exact ⟨last, (openedOther same).trans opened⟩
      | create => rw [at_] at before; exact before
      | handed got => rw [at_] at before; exact before
      | contains => exact trivial
      | readLocation => exact trivial
      | verify => exact trivial
      | open_ => exact trivial
      | failed => exact trivial

/-! ## Writing to it -/

/-- The state with other contents of a file. -/
def State.poured (state : State) (file : Nat) (contents : List UInt8) : State :=
  { state with disk := { state.disk with
      contents := Function.update state.disk.contents file contents } }

theorem poured_contents {file at_ : Nat} {contents : List UInt8} :
    (state.poured file contents).disk.contents at_ =
      if at_ = file then contents else state.disk.contents at_ :=
  Function.update_apply ..

/-- Contents that have in them what was written of what was meant. -/
theorem Filled.poured {file at_ : Nat} {contents : List UInt8}
    (filled : Filled state at_ caller) (well : Well state caller)
    (agrees : at_ = file → ∀ written, written ≤ caller.bytes.length →
      Agrees caller.bytes (state.disk.contents at_) written →
        Agrees caller.bytes contents written) :
    Filled (state.poured file contents) at_ caller := by
  have whole : state.disk.contents at_ = caller.bytes →
      (state.poured file contents).disk.contents at_ = caller.bytes := by
    intro same
    rw [poured_contents]
    split
    · rename_i here
      exact agrees_whole.mp (agrees here _ (le_refl _) (agrees_whole.mpr same))
    · exact same
  rw [Filled] at filled ⊢
  rw [Well] at well
  cases stage : caller.stage with
  | write open_ written =>
      rw [stage] at filled well
      refine ⟨filled.1, ?_⟩
      rw [poured_contents]
      split
      · rename_i here
        exact agrees here written well.1 filled.2
      · exact filled.2
  | contains => rw [stage] at filled; exact filled
  | readLocation => rw [stage] at filled; exact filled
  | verify => rw [stage] at filled; exact filled
  | create => rw [stage] at filled; exact filled
  | open_ => rw [stage] at filled; exact whole filled
  | read file_ got => rw [stage] at filled; exact whole filled
  | handed got => rw [stage] at filled; exact whole filled
  | failed => rw [stage] at filled; exact whole filled

theorem Sound.poured (sound : Sound state) {file : Nat} {contents : List UInt8}
    (agrees : ∀ other last, state.opener file = some other →
      state.callers other = some last → ∀ written, written ≤ last.bytes.length →
        Agrees last.bytes (state.disk.contents file) written →
          Agrees last.bytes contents written) :
    Sound (state.poured file contents) := by
  have filled {at_ other : Nat} {last : Caller} (opened : state.opener at_ = some other)
      (found : state.callers other = some last) (before : Filled state at_ last) :
      Filled (state.poured file contents) at_ last := by
    apply before.poured (sound.callers other last found)
    rintro rfl
    exact agrees other last opened found
  have sealed_ {hash : Hash} {at_ : Nat} (done : Sealed state hash at_) :
      Sealed (state.poured file contents) hash at_ ∧
        (state.poured file contents).disk.contents at_ = state.disk.contents at_ := by
    refine ⟨⟨done.made, done.opener, done.final⟩, ?_⟩
    rcases done.opener with ⟨other, last, opened, found, -, finished⟩
    rcases sound.opened at_ other opened with ⟨same, found', -, before⟩
    cases Option.some.inj (found.symm.trans found')
    rw [filled_finished before finished]
    exact filled_finished (filled opened found before) finished
  refine ⟨sound.fresh, sound.single, sound.named, ?_, ?_, ?_⟩
  · intro at_ other opened
    rcases sound.opened at_ other opened with ⟨last, found, verified, before⟩
    exact ⟨last, found, verified, filled opened found before⟩
  · intro hash at_ found
    exact (sealed_ (sound.standing hash at_ found)).1
  · intro other found there
    have before := sound.callers other found there
    rw [Well] at before ⊢
    cases at_ : found.stage with
    | read file_ got =>
        rw [at_] at before
        rcases sealed_ before.1 with ⟨done, same⟩
        refine ⟨done, ?_⟩
        rw [same]
        exact before.2
    | write file_ written => rw [at_] at before; exact before
    | create => rw [at_] at before; exact before
    | handed got => rw [at_] at before; exact before
    | contains => exact trivial
    | readLocation => exact trivial
    | verify => exact trivial
    | open_ => exact trivial
    | failed => exact trivial

/-- A caller writes some more of its bytes where it has got to. -/
theorem Sound.write (sound : Sound state) {file written count : Nat}
    (there : state.callers index = some caller) (stage : caller.stage = .write file written)
    (inside : written + count ≤ caller.bytes.length)
    (same : ∀ other last, state.opener file = some other → state.callers other = some last →
      last.bytes = caller.bytes) :
    Sound ((state.poured file (overwritten 0 (state.disk.contents file) written
      ((caller.bytes.drop written).take count))).with index
        { caller with stage := .write file (written + count) }) := by
  have well := sound.callers index caller there
  rw [Well, stage] at well
  apply Sound.quiet
  · apply sound.poured
    intro other last opened found done short agrees
    rw [same other last opened found] at agrees short ⊢
    exact agrees.write short inside
  · refine ⟨fun at_ opened last found => ?_⟩
    cases Option.some.inj (there.symm.trans found)
    refine ⟨rfl, rfl, ?_, ?_⟩
    · rintro -
      rcases sound.opened at_ index opened with ⟨last, found', -, filled⟩
      cases Option.some.inj (there.symm.trans found')
      rw [Filled, stage] at filled
      rcases filled with ⟨rfl, agrees⟩
      refine ⟨rfl, ?_⟩
      rw [poured_contents, if_pos rfl]
      exact agrees.extend inside
    · intro finished at_ more is
      cases is
      rw [finished file written stage] at inside ⊢
      exact Nat.le_antisymm inside (Nat.le_add_right _ _)
  · exact ⟨inside, well.2⟩

/-! ## Renaming it -/

theorem Sound.rename (sound : Sound state) {file : Nat} {disk : Shelf String UInt8}
    (renamed : state.disk.rename caller.hash.temporary caller.hash.path = some disk)
    (called : state.disk.names caller.hash.temporary = some file)
    (finished : ∀ other last, state.opener file = some other →
      state.callers other = some last → last.Finished) :
    Sound { state with disk } := by
  rw [Shelf.rename, called] at renamed
  cases renamed
  have names {name : String} {found : Nat}
      (is : Function.update (Function.update state.disk.names caller.hash.temporary none)
        caller.hash.path (some file) name = some found) :
      (name = caller.hash.path ∧ found = file) ∨
        (name ≠ caller.hash.path ∧ name ≠ caller.hash.temporary ∧
          state.disk.names name = some found) := by
    rw [Function.update_apply] at is
    split at is
    · rename_i here
      exact Or.inl ⟨here, (Option.some.inj is).symm⟩
    · rename_i path
      rw [Function.update_apply] at is
      split at is
      · exact absurd is.symm (Option.some_ne_none _)
      · rename_i temporary
        exact Or.inr ⟨path, temporary, is⟩
  -- The file that gets the name is one that somebody opened under this hash.
  have sealed_ : ∀ hash at_, state.disk.names caller.hash.temporary = some at_ ∨
      Sealed state hash at_ → (at_ = file → hash = caller.hash) →
      Sealed { state with disk := { state.disk with
        names := Function.update (Function.update state.disk.names caller.hash.temporary none)
          caller.hash.path (some file) } } hash at_ := by
    intro hash found known here
    have final : ∀ name : Hash, Function.update
        (Function.update state.disk.names caller.hash.temporary none) caller.hash.path
          (some file) name.temporary ≠ some found := by
      intro name is
      rcases names is with ⟨path, -⟩ | ⟨-, differs, before⟩
      · exact temporary_ne_path _ _ path
      · rcases known with same | done
        · exact differs (sound.single _ _ found before same)
        · exact done.final name before
    rcases known with same | done
    · cases Option.some.inj (called.symm.trans same)
      rcases sound.named _ _ called with ⟨other, last, opened, found_, spelled⟩
      refine ⟨sound.fresh _ _ called, ⟨other, last, opened, found_, ?_,
        finished other last opened found_⟩, final⟩
      rcases spelled with spelled | spelled
      · rw [here rfl]
        exact (temporary_inj spelled).symm
      · exact absurd spelled (temporary_ne_path _ _)
    · exact ⟨done.made, done.opener, final⟩
  refine ⟨?_, ?_, ?_, ?_, ?_, ?_⟩
  · intro name found is
    rcases names is with ⟨-, rfl⟩ | ⟨-, -, before⟩
    · exact sound.fresh _ _ called
    · exact sound.fresh name found before
  · intro name other found is isOther
    rcases names is with ⟨rfl, rfl⟩ | ⟨-, differs, before⟩
    · rcases names isOther with ⟨rfl, -⟩ | ⟨-, differs, before⟩
      · rfl
      · exact absurd (sound.single _ _ _ before called) differs
    · rcases names isOther with ⟨rfl, rfl⟩ | ⟨-, -, beforeOther⟩
      · exact absurd (sound.single _ _ _ before called) differs
      · exact sound.single name other found before beforeOther
  · intro name found is
    rcases names is with ⟨rfl, rfl⟩ | ⟨-, -, before⟩
    · rcases sound.named _ _ called with ⟨other, last, opened, found_, spelled⟩
      refine ⟨other, last, opened, found_, Or.inr ?_⟩
      rcases spelled with spelled | spelled
      · exact congrArg Hash.path (temporary_inj spelled)
      · exact absurd spelled (temporary_ne_path _ _)
    · exact sound.named name found before
  · exact sound.opened
  · intro hash found is
    rcases names is with ⟨path, rfl⟩ | ⟨-, -, before⟩
    · exact sealed_ hash found (Or.inl called) fun _ => path_inj path
    · apply sealed_ hash found (Or.inr (sound.standing hash found before))
      rintro rfl
      exact absurd (sound.single _ _ _ called before) (temporary_ne_path _ _)
  · intro other found there_
    have before := sound.callers other found there_
    rw [Well] at before ⊢
    cases is : found.stage with
    | read file_ got =>
        rw [is] at before
        refine ⟨sealed_ _ _ (Or.inr before.1) ?_, before.2⟩
        rintro rfl
        exact absurd called (before.1.final caller.hash)
    | write file_ written => rw [is] at before; exact before
    | create => rw [is] at before; exact before
    | handed got => rw [is] at before; exact before
    | contains => exact trivial
    | readLocation => exact trivial
    | verify => exact trivial
    | open_ => exact trivial
    | failed => exact trivial

/-! ## Every step -/

/-- A caller that has opened nothing stands by everything. -/
theorem Sound.stands_early (sound : Sound state) (there : state.callers index = some caller)
    (early : ∀ file, ¬Filled state file caller) : Stands state index after :=
  ⟨fun file opened => absurd opened (sound.not_opener there early file)⟩

/-- And so does one that was not there. -/
theorem Sound.stands_new (sound : Sound state) (absent : state.callers index = none) :
    Stands state index after := by
  refine ⟨fun file opened => ?_⟩
  rcases sound.opened file index opened with ⟨last, found, -⟩
  exact absurd (absent.symm.trans found).symm (Option.some_ne_none _)

/-- A caller whose file is whole stands by it at any later stage. -/
theorem stands_whole {stage : Stage} (there : state.callers index = some caller)
    (whole : ∀ file, Filled state file caller → Filled state file { caller with stage })
    (finished : Caller.Finished { caller with stage }) :
    Stands state index { caller with stage } := by
  refine ⟨fun file _ last found => ?_⟩
  cases Option.some.inj (there.symm.trans found)
  exact ⟨rfl, rfl, whole file, fun _ => finished⟩

theorem Sound.new (sound : Sound state) (absent : state.callers index = none)
    (well : Well state after) : Sound (state.with index after) :=
  sound.quiet (sound.stands_new absent) well

/-- Reading on comes to the beginning of the file. -/
theorem take_more {contents got : List UInt8} (before : got = contents.take got.length)
    (count : Nat) : got ++ (contents.drop got.length).take count =
      contents.take (got ++ (contents.drop got.length).take count).length := by
  have short : got.length ≤ contents.length := by
    have lengths := congrArg List.length before
    rw [List.length_take] at lengths
    omega
  have more : (got ++ (contents.drop got.length).take count).length =
      got.length + min count (contents.length - got.length) := by
    rw [List.length_append, List.length_take, List.length_drop]
  rw [more, List.take_add, ← before, List.append_cancel_left_eq]
  apply List.take_eq_take_iff.mpr
  rw [List.length_drop, Nat.min_assoc, Nat.min_self]

theorem Sound.advance (sound : Sound state) {event : Event} {next : State}
    (there : state.callers index = some caller)
    (advances : Fetch.advance state index caller event = some next)
    (orderly : Orderly state index event) : Sound next := by
  rcases caller with ⟨hash, bytes, stage, running⟩
  have well := sound.callers index _ there
  cases event with
  | look =>
      cases stage with
      | contains =>
          have early : ∀ file, ¬Filled state file ⟨hash, bytes, .contains, running⟩ :=
            fun _ filled => filled
          simp only [Fetch.advance] at advances
          split at advances
          · cases advances
            exact sound.quiet (sound.stands_early there early) trivial
          · cases advances
            exact sound.quiet (sound.stands_early there early) trivial
      | _ => exact nomatch advances
  | answer answered =>
      cases stage with
      | readLocation =>
          have early : ∀ file, ¬Filled state file ⟨hash, bytes, .readLocation, running⟩ :=
            fun _ filled => filled
          cases advances
          exact sound.quiet (sound.stands_early there early) trivial
      | _ => exact nomatch advances
  | check =>
      cases stage with
      | verify =>
          have early : ∀ file, ¬Filled state file ⟨hash, bytes, .verify, running⟩ :=
            fun _ filled => filled
          simp only [Fetch.advance] at advances
          split at advances
          · rename_i verified
            cases advances
            exact sound.quiet (sound.stands_early there early) verified
          · cases advances
            exact sound.quiet (sound.stands_early there early) trivial
      | _ => exact nomatch advances
  | create =>
      cases stage with
      | create =>
          cases advances
          exact sound.create there rfl (sound.creates hash)
      | _ => exact nomatch advances
  | write count =>
      cases stage with
      | write file written =>
          simp only [Fetch.advance] at advances
          split at advances
          · rename_i inside
            cases advances
            apply sound.write there rfl inside
            intro other last opened found
            exact orderly _ file written other last there rfl opened found
          · exact nomatch advances
      | _ => exact nomatch advances
  | rename =>
      cases stage with
      | write file written =>
          -- The caller's own file is whole, whichever file it is that is renamed.
          have whole : ∀ (disk : Shelf String UInt8), disk.contents = state.disk.contents →
              written = bytes.length → ∀ at_,
              Filled { state with disk } at_ ⟨hash, bytes, .write file written, running⟩ →
                disk.contents at_ = bytes := by
            rintro disk - rfl at_ filled
            exact agrees_whole.mp filled.2
          have finished : ∀ stage : Stage, (∀ at_ more, stage ≠ .write at_ more) →
              Caller.Finished ⟨hash, bytes, stage, running⟩ :=
            fun stage differs at_ more is => absurd is (differs at_ more)
          simp only [Fetch.advance] at advances
          split at advances
          · rename_i all
            cases renamed : state.disk.rename hash.temporary hash.path with
            | some disk =>
                simp only [renamed] at advances
                cases advances
                have called : ∃ at_, state.disk.names hash.temporary = some at_ := by
                  rw [Shelf.rename] at renamed
                  rcases Option.map_eq_some_iff.mp renamed with ⟨at_, called, -⟩
                  exact ⟨at_, called⟩
                rcases called with ⟨at_, called⟩
                have contents : disk.contents = state.disk.contents := by
                  rw [Shelf.rename, called] at renamed
                  cases renamed
                  rfl
                have after := @Sound.rename state ⟨hash, bytes, .write file written, running⟩
                  sound at_ disk renamed called fun other last =>
                    orderly _ at_ other last there called
                have stands := @stands_whole { state with disk } index
                  ⟨hash, bytes, .write file written, running⟩ .open_ there
                  (whole disk contents all) (finished .open_ nofun)
                exact after.quiet stands trivial
            | none =>
                simp only [renamed] at advances
                cases advances
                have stands := @stands_whole state index
                  ⟨hash, bytes, .write file written, running⟩ .failed there
                  (whole state.disk rfl all) (finished .failed nofun)
                exact sound.quiet stands trivial
          · exact nomatch advances
      | _ => exact nomatch advances
  | open_ =>
      cases stage with
      | open_ =>
          have stands (stage : Stage) (later : ∀ at_, Filled state at_
                ⟨hash, bytes, .open_, running⟩ → Filled state at_ ⟨hash, bytes, stage, running⟩)
              (finished : Caller.Finished ⟨hash, bytes, stage, running⟩) :
              Stands state index ⟨hash, bytes, stage, running⟩ :=
            @stands_whole state index ⟨hash, bytes, .open_, running⟩ stage there later finished
          simp only [Fetch.advance] at advances
          cases found : state.disk.names hash.path with
          | some file =>
              simp only [found] at advances
              cases advances
              exact sound.quiet (stands (.read file []) (fun _ => id) nofun)
                ⟨sound.standing hash file found, rfl⟩
          | none =>
              simp only [found] at advances
              cases advances
              exact sound.quiet (stands .failed (fun _ => id) nofun) trivial
      | _ => exact nomatch advances
  | read count =>
      cases stage with
      | read file got =>
          rcases well with ⟨done, before⟩
          simp only [Fetch.advance] at advances
          split at advances
          · rename_i all
            cases advances
            refine sound.quiet (stands_whole there (fun _ => id) nofun) ?_
            show digest got = hash.text
            rw [before, List.take_of_length_le all]
            exact sound.sealed_digest done
          · cases advances
            exact sound.quiet (stands_whole there (fun _ => id) nofun)
              ⟨done, take_more before count⟩
      | _ => exact nomatch advances
  | stop =>
      cases advances
      have stands : Stands state index ⟨hash, bytes, stage, false⟩ := by
        refine ⟨fun file _ last found => ?_⟩
        cases Option.some.inj (there.symm.trans found)
        exact ⟨rfl, rfl, id, id⟩
      exact sound.quiet stands well
  | retrieve _ => exact nomatch advances
  | verifyAndCache _ _ => exact nomatch advances

theorem Sound.step (sound : Sound state) {event : Event} {next : State}
    (steps : Fetch.step state index event = some next) (orderly : Orderly state index event) :
    Sound next := by
  cases there : state.callers index with
  | some caller =>
      simp only [Fetch.step, there] at steps
      split at steps
      · exact sound.advance there steps orderly
      · exact nomatch steps
  | none =>
      cases event with
      | retrieve hash =>
          simp only [Fetch.step, there] at steps
          cases steps
          exact sound.new there trivial
      | verifyAndCache hash bytes =>
          simp only [Fetch.step, there] at steps
          cases steps
          exact sound.new there trivial
      | _ =>
          simp only [Fetch.step, there] at steps
          exact nomatch steps

theorem sound_start : Sound .start where
  fresh := nofun
  single := nofun
  named := nofun
  opened := nofun
  standing := nofun
  callers := nofun

theorem Reached.sound (reached : Reached state) : Sound state := by
  induction reached with
  | start => exact sound_start
  | step _ steps orderly sound => exact sound.step steps orderly

/-- In every run whose steps are orderly, whatever stands under a hash has it, and so has
whatever the compiler is handed. -/
theorem cache_keeps (reached : Reached state) : state.Kept := reached.sound.kept

/-! ## Two callers -/

/-- Every digest is spelled as one. -/
theorem digest_spelled (bytes : List UInt8) : isDigest (digest bytes) = true := by
  have digits : ∀ value < 16, ((hexDigit value).isDigit ||
      ('a' ≤ hexDigit value && hexDigit value ≤ 'f')) = true := by decide
  have length : (sha256 bytes).length = 32 := rfl
  rw [isDigest, Bool.and_eq_true, digest, hex]
  constructor
  · rw [String.length_ofList, List.length_flatMap]
    simp [length]
  · rw [String.toList_ofList, List.all_eq_true]
    intro digit there
    rcases List.mem_flatMap.mp there with ⟨byte, -, one⟩
    have below := byte.toNat_lt
    rcases List.mem_cons.mp one with rfl | one
    · exact digits _ (by omega)
    · rcases List.mem_singleton.mp one with rfl
      exact digits _ (Nat.mod_lt _ (by decide))

/-- The steps of a schedule, one after the other. -/
def through : List (Nat × Event) → State → Option State
  | [], state => some state
  | (index, event) :: rest, state => (step state index event).bind (through rest)

theorem reachable_through {events : List (Nat × Event)} {next : State}
    (reachable : Reachable state) (ends : through events state = some next) :
    Reachable next := by
  induction events generalizing state with
  | nil =>
      cases ends
      exact reachable
  | cons first rest ih =>
      rcases Option.bind_eq_some_iff.mp ends with ⟨after, steps, goes⟩
      exact ih (reachable.step steps) goes

/-- A second caller opens the temporary file while the first is about to rename it. -/
def overlapping (hash : Hash) (bytes : List UInt8) : List (Nat × Event) :=
  [(0, .verifyAndCache hash bytes), (0, .check), (0, .create), (0, .write bytes.length),
    (1, .verifyAndCache hash bytes), (1, .check), (1, .create), (0, .rename)]

theorem overlapping_empties {hash : Hash} {bytes : List UInt8}
    (verified : verify hash bytes = true) :
    (through (overlapping hash bytes) .start).map (fun state =>
      (state.disk.names hash.path, state.disk.contents 0)) = some (some 0, []) := by
  simp [through, overlapping, step, advance, State.start, State.goesOn, Shelf.bare,
    Shelf.create, Shelf.rename, Shelf.write, verified]

/-- A one-byte module, and its hash. -/
def letter : List UInt8 := [97]

def letterHash : Hash := ⟨digest letter, digest_spelled letter⟩

theorem letter_verified : verify letterHash letter = true := beq_self_eq_true (digest letter)

set_option maxRecDepth 100000 in
theorem digest_ne_nothing : digest [] ≠ digest letter := by
  intro same
  have spelled : (hex (sha256 [])).toList.head? = (hex (sha256 letter)).toList.head? :=
    congrArg (fun text => text.toList.head?) same
  rw [hex, hex, String.toList_ofList, String.toList_ofList] at spelled
  exact absurd spelled (by decide)

/-- The file that the first caller renames is empty: the second has just opened it. -/
theorem cache_breaks : ∃ state, Reachable state ∧ ¬state.Kept := by
  rcases Option.map_eq_some_iff.mp (overlapping_empties letter_verified) with
    ⟨state, ends, shows⟩
  refine ⟨state, reachable_through .start ends, ?_⟩
  intro kept
  rcases Prod.mk.inj shows with ⟨names, contents⟩
  have empty := kept.stands letterHash 0 names
  rw [contents] at empty
  exact digest_ne_nothing empty

/-- Steps that are orderly where each of them is made. -/
def Calm : List (Nat × Event) → State → Prop
  | [], _ => True
  | (index, event) :: rest, state =>
      Orderly state index event ∧ ∀ next, step state index event = some next → Calm rest next

theorem reached_through {events : List (Nat × Event)} {next : State}
    (reached : Reached state) (calm : Calm events state) (ends : through events state = some next) :
    Reached next := by
  induction events generalizing state with
  | nil =>
      cases ends
      exact reached
  | cons first rest ih =>
      rcases Option.bind_eq_some_iff.mp ends with ⟨after, steps, goes⟩
      exact ih (reached.step steps calm.1) (calm.2 after steps) goes

/-- One caller stores the module, and the compiler reads what it answers. -/
def alone (hash : Hash) (bytes : List UInt8) : List (Nat × Event) :=
  [(0, .verifyAndCache hash bytes), (0, .check), (0, .create), (0, .write bytes.length),
    (0, .rename), (0, .open_), (0, .read bytes.length), (0, .read 1)]

theorem alone_calm {hash : Hash} {bytes : List UInt8} (verified : verify hash bytes = true) :
    Calm (alone hash bytes) .start := by
  simp [Calm, alone, step, advance, State.start, State.goesOn, Shelf.bare, Orderly,
    Shelf.create, Shelf.rename, Shelf.write, verified, Caller.Finished]
  -- Whoever opened a file is the only caller there is.
  have only {file other : Nat} {caller last : Caller}
      (opened : Function.update (fun _ => none) 0 (some 0) file = some other)
      (found : Function.update (fun _ => none) 0 (some caller) other = some last) :
      last = caller := by
    rw [Function.update_apply] at opened found
    split at opened
    · cases opened
      exact (Option.some.inj found).symm
    · exact absurd opened (Option.some_ne_none other).symm
  constructor
  · rintro _ file written other last rfl - opened found
    rw [only opened found]
  · rintro _ file other last rfl - opened found at_ written is
    rw [only opened found] at is ⊢
    cases is
    rfl

theorem alone_hands {hash : Hash} {bytes : List UInt8} (verified : verify hash bytes = true)
    (some_ : bytes ≠ []) : (through (alone hash bytes) .start).map (fun state =>
      (state.callers 0).map Caller.stage) = some (some (.handed bytes)) := by
  simp [through, alone, step, advance, State.start, State.goesOn, Shelf.bare,
    Shelf.create, Shelf.rename, Shelf.write, verified, overwritten, some_]

/-- The compiler is handed the module under its hash. -/
theorem cache_keeps_letter : ∃ state, Reached state ∧ state.Kept ∧
    (state.callers 0).map Caller.stage = some (.handed letter) := by
  rcases Option.map_eq_some_iff.mp (alone_hands letter_verified (List.cons_ne_nil _ _)) with
    ⟨state, ends, hands⟩
  have reached := reached_through .start
    (alone_calm letter_verified) ends
  exact ⟨state, reached, cache_keeps reached, hands⟩

end Deed.Fetch
