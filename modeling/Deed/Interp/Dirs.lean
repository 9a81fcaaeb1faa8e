import Deed.Interp.Io

/-!
# What a directory capability reaches

On a file tree with symbolic links: where the paths that `resolve` and `resolve_new`
answer with lead, and what a chain of `Io.open` and `Io.make` hands out.
-/

namespace Deed.Interp

open Deed.Rt Deed.Library

variable {World : Type} {machine : Machine World} {display : Value → Text}
  {interp later : Interp (Tree × World)} {operation : Operation} {args : List Value}
  {value : Value} {tree : Tree} {world after : Tree × World} {limit : Nat}
  {root path made : Path} {name : Text}

theorem bind_ok {α β ε : Type} {first : Except ε α} {next : α → Except ε β} {result : β}
    (run : (first >>= next) = .ok result) :
    ∃ middle, first = .ok middle ∧ next middle = .ok result := by
  cases first with
  | error why => exact absurd run (by simp [bind, Except.bind])
  | ok middle => exact ⟨middle, rfl, run⟩

/-! ## The tree -/

theorem changed_keeps {answer : Except Text Unit} {changed : Option Tree}
    (keeps : ∀ later, changed = some later → world.1.Keeps later)
    (run : machine.changed world path changed = (answer, after)) : world.1.Keeps after.1 := by
  unfold Machine.changed at run
  split at run
  · rename_i later
    rw [← (Prod.mk.inj run).2]
    exact keeps later rfl
  · rw [← (Prod.mk.inj run).2]
    exact Files.Keeps.refl _

theorem performSave_keeps {contents : Text}
    (run : performSave machine.platform world root name contents = (value, after)) :
    world.1.Keeps after.1 := by
  unfold performSave at run
  split at run
  · split at run
    · rename_i written
      rw [← (Prod.mk.inj run).2]
      exact changed_keeps (fun _ => Files.write_keeps) written
    · rename_i written
      rw [← (Prod.mk.inj run).2]
      exact changed_keeps (fun _ => Files.write_keeps) written
  · rw [← (Prod.mk.inj run).2]
    exact Files.Keeps.refl _

theorem performRemove_keeps
    (run : performRemove machine.platform world root name = (value, after)) :
    world.1.Keeps after.1 := by
  unfold performRemove at run
  split at run
  · split at run
    · rw [← (Prod.mk.inj run).2]
      exact Files.Keeps.refl _
    · split at run
      · rename_i removed
        rw [← (Prod.mk.inj run).2]
        exact changed_keeps (fun _ => Files.removeFile_keeps) removed
      · rename_i removed
        rw [← (Prod.mk.inj run).2]
        exact changed_keeps (fun _ => Files.removeFile_keeps) removed
  · rw [← (Prod.mk.inj run).2]
    exact Files.Keeps.refl _

theorem createDir_keeps {later : Tree} (made : tree.createDir limit path = some later) :
    tree.Keeps later := by
  rcases Files.createDir_spec made with ⟨_, _, _, _, _, _, keeps, _⟩
  exact keeps

theorem performMake_keeps
    (run : performMake machine.platform world root name = (value, after)) :
    world.1.Keeps after.1 := by
  unfold performMake at run
  split at run
  · split at run
    · rw [← (Prod.mk.inj run).2]
      exact Files.Keeps.refl _
    · split at run
      · rename_i created
        have keeps := changed_keeps (fun _ => createDir_keeps) created
        split at run
        · rw [← (Prod.mk.inj run).2]
          exact keeps
        · rw [← (Prod.mk.inj run).2]
          exact keeps
      · rename_i created
        rw [← (Prod.mk.inj run).2]
        exact changed_keeps (fun _ => createDir_keeps) created
  · rw [← (Prod.mk.inj run).2]
    exact Files.Keeps.refl _

theorem overTheNetwork_keeps {reach : Reach} {url method : Text} {body : Option Text} :
    world.1.Keeps (machine.platform.overTheNetwork world reach url method body).2.1 := by
  unfold Platform.overTheNetwork
  cases reach.resolve url with
  | error refused => exact Files.Keeps.refl _
  | ok target => exact Files.Keeps.refl _

/-! ## One operation -/

/-- The capability that an answer hands out. -/
def handed : Value → Option Capability
  | .capability capability => some capability
  | .result _ value => handed value
  | _ => none

theorem handed_performSave {contents : Text} :
    handed (performSave machine.platform world root name contents).1 = none := by
  unfold performSave complained
  split
  · split <;> rfl
  · rfl

theorem handed_performRemove :
    handed (performRemove machine.platform world root name).1 = none := by
  unfold performRemove complained
  split
  · split
    · rfl
    · split <;> rfl
  · rfl

theorem handed_performRead : handed (performRead machine.platform world root name) = none := by
  unfold performRead complained
  split
  · split <;> rfl
  · rfl

theorem handed_asked {answer : Except Text Text} : handed (asked answer) = none := by
  cases answer <;> rfl

theorem quiet {answer : Value} {state : Interp (Tree × World)}
    (same : (.ok (answer, state) : Except Failure (Value × Interp (Tree × World))) =
      .ok (value, later))
    (none : handed answer = none) (keeps : interp.world.1.Keeps state.world.1) :
    handed value = Option.none ∧ interp.world.1.Keeps later.world.1 := by
  rcases Except.ok.inj same with ⟨rfl, rfl⟩
  exact ⟨none, keeps⟩

/-- What an operation does: it opens or makes a directory inside the one it is given, it
narrows the hosts it is given, or it hands out nothing. -/
theorem performIo_cases
    (run : performIo machine.platform display operation args interp = .ok (value, later)) :
    (handed value = none ∧ interp.world.1.Keeps later.world.1) ∨
      (operation = .open ∧ ∃ root name, args.head? = some (.capability (.dir root)) ∧
        later = interp ∧ value = performOpen machine.platform interp.world root name) ∨
      (operation = .make ∧ ∃ root name, args.head? = some (.capability (.dir root)) ∧
        performMake machine.platform interp.world root name = (value, later.world)) ∨
      (operation = .reach ∧ ∃ reach host narrowed,
        args.head? = some (.capability (.net reach)) ∧ later = interp ∧
        reach.narrow host = .ok narrowed ∧ value = .ok (.capability (.net narrowed))) := by
  rcases args with _ | ⟨first, rest⟩
  · exact absurd run (by simp [performIo])
  · cases first with
    | capability held =>
        -- What the pair of operation and capability does not allow is an error.
        cases operation <;> cases held <;>
          simp only [performIo, List.head?_cons, reduceCtorEq] at run
        case write.console => exact Or.inl (quiet run rfl (Files.Keeps.refl _))
        case line.console =>
          left
          split at run
          · exact quiet run rfl (Files.Keeps.refl _)
          · exact quiet run rfl (Files.Keeps.refl _)
        case now.clock =>
          left
          split at run
          · exact quiet run rfl (Files.Keeps.refl _)
          · exact absurd run (by simp)
        case epoch.clock => exact Or.inl (quiet run rfl (Files.Keeps.refl _))
        case args.system => exact Or.inl (quiet run rfl (Files.Keeps.refl _))
        case env.system =>
          left
          rcases bind_ok run with ⟨wanted, -, run⟩
          split at run
          · exact quiet run rfl (Files.Keeps.refl _)
          · exact quiet run rfl (Files.Keeps.refl _)
        case list.dir =>
          left
          split at run
          · exact quiet run rfl (Files.Keeps.refl _)
          · exact quiet run rfl (Files.Keeps.refl _)
        case open.dir root =>
          rcases bind_ok run with ⟨name, -, run⟩
          rcases Except.ok.inj run with ⟨rfl, rfl⟩
          exact Or.inr (Or.inl ⟨rfl, root, name, rfl, rfl, rfl⟩)
        case read.dir =>
          rcases bind_ok run with ⟨name, -, run⟩
          exact Or.inl (quiet run handed_performRead (Files.Keeps.refl _))
        case save.dir =>
          rcases bind_ok run with ⟨name, -, run⟩
          rcases bind_ok run with ⟨contents, -, run⟩
          exact Or.inl (quiet run handed_performSave (performSave_keeps rfl))
        case remove.dir =>
          rcases bind_ok run with ⟨name, -, run⟩
          exact Or.inl (quiet run handed_performRemove (performRemove_keeps rfl))
        case make.dir root =>
          rcases bind_ok run with ⟨name, -, run⟩
          rcases Except.ok.inj run with ⟨rfl, rfl⟩
          exact Or.inr (Or.inr (Or.inl ⟨rfl, root, name, rfl, rfl⟩))
        case reach.net reach =>
          rcases bind_ok run with ⟨host, -, run⟩
          split at run
          · rename_i narrowed narrows
            rcases Except.ok.inj run with ⟨rfl, rfl⟩
            exact Or.inr (Or.inr (Or.inr ⟨rfl, reach, host, narrowed, rfl, rfl, narrows, rfl⟩))
          · exact Or.inl (quiet run rfl (Files.Keeps.refl _))
        case fetch.net =>
          rcases bind_ok run with ⟨url, -, run⟩
          refine Or.inl (quiet run handed_asked ?_)
          exact overTheNetwork_keeps
        case send.net =>
          rcases bind_ok run with ⟨url, -, run⟩
          rcases bind_ok run with ⟨body, -, run⟩
          refine Or.inl (quiet run handed_asked ?_)
          exact overTheNetwork_keeps
    | _ => exact absurd run (by simp [performIo])

/-! ## Names -/

theorem resolve_ok {canonicalize : Path → Option Path} :
    Sandbox.resolve canonicalize root name = .ok path ↔
      Sandbox.checkName name = .ok () ∧ canonicalize (root ++ [name]) = some path ∧
        root <+: path := by
  unfold Sandbox.resolve
  cases Sandbox.checkName name with
  | error refused => simp [bind, Except.bind]
  | ok checked =>
      cases canonicalize (root ++ [name]) with
      | none => simp [bind, Except.bind]
      | some canonical =>
          by_cases under : root <+: canonical
          · simp only [bind, Except.bind, if_pos under, Except.ok.injEq, Option.some.injEq,
              true_and]
            constructor
            · rintro rfl
              exact ⟨rfl, under⟩
            · rintro ⟨rfl, -⟩
              rfl
          · simp only [bind, Except.bind, if_neg under, Option.some.injEq, true_and, reduceCtorEq,
              false_iff]
            rintro ⟨rfl, inside⟩
            exact under inside

theorem resolveNew_ok {canonicalize : Path → Option Path} :
    Sandbox.resolveNew canonicalize root name = .ok path ↔
      Sandbox.checkName name = .ok () ∧
        (canonicalize (root ++ [name]) = some path ∧ root <+: path ∨
          canonicalize (root ++ [name]) = none ∧ path = root ++ [name]) := by
  unfold Sandbox.resolveNew
  cases Sandbox.checkName name with
  | error refused => simp [bind, Except.bind]
  | ok checked =>
      cases canonicalize (root ++ [name]) with
      | none => simp [bind, Except.bind, eq_comm]
      | some canonical =>
          by_cases under : root <+: canonical
          · simp only [bind, Except.bind, if_pos under, Except.ok.injEq, Option.some.injEq,
              true_and, reduceCtorEq, false_and, or_false]
            constructor
            · rintro rfl
              exact ⟨rfl, under⟩
            · rintro ⟨rfl, -⟩
              rfl
          · simp only [bind, Except.bind, if_neg under, Option.some.injEq, true_and, reduceCtorEq,
              false_and, or_false, false_iff]
            rintro ⟨rfl, inside⟩
            exact under inside

theorem canonicalize_eq_some :
    Machine.canonicalize limit tree path = some made ↔ tree.locate limit path = .found made := by
  unfold Machine.canonicalize
  cases tree.locate limit path with
  | found place => simp
  | missing place => simp
  | failed => simp

theorem canonicalize_eq_none :
    Machine.canonicalize limit tree path = none ↔ ∀ place, tree.locate limit path ≠ .found place := by
  unfold Machine.canonicalize
  cases tree.locate limit path with
  | found place => simp
  | missing place => simp
  | failed => simp

/-! ## Paths -/

/-- Wherever a path leads, to something that is there or to a place where something could be
made, it is under the root. -/
def Inside (tree : Tree) (limit : Nat) (root path : Path) : Prop :=
  ∀ place, tree.locate limit path = .found place ∨ tree.locate limit path = .missing place →
    root <+: place

/-- An accepted name that is a link to a place outside the root where nothing is. -/
def DanglesOutside (tree : Tree) (limit : Nat) (root : Path) (name : Text) : Prop :=
  Sandbox.checkName name = .ok () ∧ ∃ target place,
    tree.entry (root ++ [name]) = some (.link target) ∧
      tree.locate limit (root ++ [name]) = .missing place ∧ ¬root <+: place

theorem inside_canonical (canonical : Machine.canonicalize limit tree path = some made)
    (under : root <+: made) : Inside tree limit root made := by
  have settled := Files.locate_found (canonicalize_eq_some.mp canonical)
  rintro place (found | missing)
  · rw [Files.locate_settled settled] at found
    rwa [← Located.found.inj found]
  · rw [Files.locate_settled settled] at missing
    exact absurd missing (by simp)

theorem inside_resolve
    (resolved : Sandbox.resolve (Machine.canonicalize limit tree) root name = .ok path) :
    Inside tree limit root path := by
  rcases resolve_ok.mp resolved with ⟨-, canonical, under⟩
  exact inside_canonical canonical under

/-- A name that leads nowhere leads to itself, unless a link stands there. -/
theorem locate_missing_name (plain : tree.Plain root) {place : Path}
    (unlinked : ∀ target, tree.entry (root ++ [name]) ≠ some (.link target))
    (missing : tree.locate limit (root ++ [name]) = .missing place) : place = root ++ [name] := by
  have directory := @Files.locate_in_plain _ _ tree root name limit plain
    (by rw [missing]; simp)
  rw [Files.locate_append directory, List.map_singleton] at missing
  cases entry : tree.entry (root ++ [name]) with
  | none =>
      rw [Files.walk_vacant entry, if_pos rfl] at missing
      exact (Located.missing.inj missing).symm
  | some there =>
      cases there with
      | directory =>
          rw [Files.walk_directory entry] at missing
          rw [Files.walk_nil] at missing
          exact absurd missing (by simp)
      | file contents =>
          rw [Files.walk_file entry, if_pos rfl] at missing
          exact absurd missing (by simp)
      | link target => exact absurd entry (unlinked target)

theorem inside_resolveNew (plain : tree.Plain root) (stays : ¬DanglesOutside tree limit root name)
    (resolved : Sandbox.resolveNew (Machine.canonicalize limit tree) root name = .ok path) :
    Inside tree limit root path := by
  rcases resolveNew_ok.mp resolved with ⟨checked, ⟨canonical, under⟩ | ⟨absent, rfl⟩⟩
  · exact inside_canonical canonical under
  · rintro place (found | missing)
    · exact absurd found (canonicalize_eq_none.mp absent place)
    · by_contra outside
      -- Without a link there, the place is the name's own, and under the root.
      have linked : ∃ target, tree.entry (root ++ [name]) = some (.link target) := by
        by_contra unlinked
        have same := locate_missing_name plain (not_exists.mp unlinked) missing
        exact outside (same ▸ List.prefix_append root [name])
      rcases linked with ⟨target, entry⟩
      exact stays ⟨checked, target, place, entry, missing, outside⟩

/-! ## Chains -/

variable {dir : Path} {start : Interp (Tree × World)}

/-- The directories that a program holds, and the state it holds them in: from one `Dir`,
through operations of any kind on any capability, by opening and making. -/
inductive Reaches (machine : Machine World) (display : Value → Text)
    (start : Interp (Tree × World)) (root : Path) : Interp (Tree × World) → Path → Prop
  | start : Reaches machine display start root start root
  | perform {interp later : Interp (Tree × World)} {dir : Path} {operation : Operation}
      {args : List Value} {value : Value} :
      Reaches machine display start root interp dir →
      performIo machine.platform display operation args interp = .ok (value, later) →
      Reaches machine display start root later dir
  | hand {interp later : Interp (Tree × World)} {dir made : Path} {operation : Operation}
      {args : List Value} :
      Reaches machine display start root interp dir →
      performIo machine.platform display operation (.capability (.dir dir) :: args) interp =
        .ok (.ok (.capability (.dir made)), later) →
      Reaches machine display start root later made

theorem performOpen_hands
    (opened : performOpen machine.platform world root name = .ok (.capability (.dir made))) :
    Machine.canonicalize machine.limit world.1 (root ++ [name]) = some made ∧ root <+: made := by
  unfold performOpen at opened
  split at opened
  · rename_i path resolved
    split at opened
    · rcases Value.result.inj opened with ⟨-, same⟩
      rcases Capability.dir.inj (Value.capability.inj same) with rfl
      exact (resolve_ok.mp resolved).2
    · exact absurd opened (by simp [Value.ok, Value.err])
  · exact absurd opened (by simp [Value.ok, Value.err])

theorem createDir_ok
    (created : machine.platform.createDir world path = (.ok (), after)) :
    world.1.createDir machine.limit path = some after.1 := by
  change machine.changed world path (world.1.createDir machine.limit path) = _ at created
  unfold Machine.changed at created
  split at created
  · rename_i later made
    rw [made, ← (Prod.mk.inj created).2]
  · exact absurd (Prod.mk.inj created).1 (by simp)

/-- What is made stands where its name says. -/
theorem performMake_hands (plain : world.1.Plain root)
    (run : performMake machine.platform world root name =
      (.ok (.capability (.dir made)), after)) :
    made = root ++ [name] ∧ after.1.entry made = some .directory := by
  unfold performMake at run
  split at run
  · rename_i path resolved
    split at run
    · exact absurd (Prod.mk.inj run).1 (by simp [Value.ok, Value.err])
    · rename_i absent
      split at run
      · rename_i later created
        split at run
        · rename_i there rooted
          rcases Prod.mk.inj run with ⟨same, rfl⟩
          rcases Capability.dir.inj (Value.capability.inj (Value.result.inj same).2) with rfl
          rcases resolveNew_ok.mp resolved with ⟨-, ⟨canonical, -⟩ | ⟨-, rfl⟩⟩
          · have settled := Files.locate_found (canonicalize_eq_some.mp canonical)
            refine absurd ?_ absent
            show (Machine.canonicalize machine.limit world.1 path).isSome = true
            rw [canonicalize_eq_some.mpr (Files.locate_settled settled)]
            rfl
          · rcases Files.createDir_spec (createDir_ok created) with
              ⟨parent, last, place, split, located, -, -, standing⟩
            rcases List.append_inj' split rfl with ⟨rfl, lasts⟩
            rw [plain.found located, ← lasts] at standing
            unfold Sandbox.root at rooted
            rw [show machine.platform.canonicalize later (root ++ [name]) = _ from
              canonicalize_eq_some.mpr (Files.locate_settled (Or.inl standing))] at rooted
            rw [← Except.ok.inj rooted]
            exact ⟨rfl, standing⟩
        · exact absurd (Prod.mk.inj run).1 (by simp [Value.ok, Value.err])
      · exact absurd (Prod.mk.inj run).1 (by simp [Value.ok, complained, Value.err])
  · exact absurd (Prod.mk.inj run).1 (by simp [Value.ok, Value.err])

theorem hands_cases {rest : List Value}
    (run : performIo machine.platform display operation (.capability (.dir root) :: rest) interp =
      .ok (.ok (.capability (.dir made)), later)) (plain : interp.world.1.Plain root) :
    root <+: made ∧ later.world.1.Plain made := by
  rcases performIo_cases run with ⟨none, -⟩ | ⟨-, other, name, given, rfl, opened⟩ |
    ⟨-, other, name, given, run⟩ | ⟨-, _, _, _, given, -⟩
  · exact absurd none (by simp [handed, Value.ok])
  · rcases Capability.dir.inj (Value.capability.inj (Option.some.inj given)) with rfl
    rcases performOpen_hands opened.symm with ⟨canonical, under⟩
    exact ⟨under, (Files.locate_found (canonicalize_eq_some.mp canonical)).plain⟩
  · rcases Capability.dir.inj (Value.capability.inj (Option.some.inj given)) with rfl
    rcases performMake_hands plain run with ⟨rfl, standing⟩
    exact ⟨List.prefix_append _ _, Files.Settled.plain (Or.inl standing)⟩
  · exact absurd given (by simp)

theorem performIo_keeps
    (run : performIo machine.platform display operation args interp = .ok (value, later)) :
    interp.world.1.Keeps later.world.1 := by
  rcases performIo_cases run with ⟨-, keeps⟩ | ⟨-, _, _, -, rfl, -⟩ | ⟨-, _, _, -, run⟩ |
    ⟨-, _, _, _, -, rfl, -⟩
  · exact keeps
  · exact Files.Keeps.refl _
  · exact performMake_keeps run
  · exact Files.Keeps.refl _

/-- Every directory that a chain hands out is under the first, and plain. -/
theorem Reaches.under (reaches : Reaches machine display start root interp dir)
    (plain : start.world.1.Plain root) : root <+: dir ∧ interp.world.1.Plain dir := by
  induction reaches with
  | start => exact ⟨List.prefix_rfl, plain⟩
  | perform reaches run ih => exact ⟨ih.1, (performIo_keeps run).plain ih.2⟩
  | hand reaches run ih =>
      rcases hands_cases run ih.2 with ⟨under, made⟩
      exact ⟨ih.1.trans under, made⟩

/-! ## Capabilities never widen -/

/-- Whatever a name gives, to read or to write, is under the root, and so is every directory
that a chain of operations gets from the root. -/
def NeverWidens (machine : Machine World) (display : Value → Text)
    (start : Interp (Tree × World)) (root : Path) (name : Text) : Prop :=
  (∀ path, Sandbox.resolve (machine.platform.canonicalize start.world) root name = .ok path →
    Inside start.world.1 machine.limit root path) ∧
  (∀ path, Sandbox.resolveNew (machine.platform.canonicalize start.world) root name = .ok path →
    Inside start.world.1 machine.limit root path) ∧
  ∀ later dir, Reaches machine display start root later dir → root <+: dir

theorem dir_never_widens (machine : Machine World) (display : Value → Text)
    (start : Interp (Tree × World)) (root : Path) (name : Text)
    (canonical : machine.platform.canonicalize start.world root = some root) :
    NeverWidens machine display start root name ↔
      ¬DanglesOutside start.world.1 machine.limit root name := by
  have plain := (Files.locate_found (canonicalize_eq_some.mp canonical)).plain
  constructor
  · rintro ⟨-, new, -⟩ ⟨checked, target, place, entry, missing, outside⟩
    have absent : Machine.canonicalize machine.limit start.world.1 (root ++ [name]) = none := by
      rw [canonicalize_eq_none, missing]
      intro place
      simp
    exact outside (new _ (resolveNew_ok.mpr ⟨checked, Or.inr ⟨absent, rfl⟩⟩) place (Or.inr missing))
  · intro stays
    refine ⟨fun path resolved => inside_resolve resolved, fun path resolved => ?_, ?_⟩
    · exact inside_resolveNew plain stays resolved
    · intro later dir reaches
      exact (reaches.under plain).1

/-- A machine without a clock, a network or a listing. -/
def machineOfFiles : Machine Unit where
  limit := 40
  complaint _ := "Too many levels of symbolic links (os error 40)".toList
  readDir _ _ := .ok []
  sinceEpoch world := (0, world)
  exchange world _ _ := (.error "Connection refused (os error 111)".toList, world)

/-- A directory `r`, and a link in it to an absolute path where nothing is. -/
def dangling : Tree :=
  (Files.bare.put ["r".toList] .directory rfl (by decide)).put ["r".toList, "x".toList]
    (.link [.rootDir, .normal "y".toList]) rfl (by decide)

/-- A run that was given the directory `r`. -/
def rooted : Interp (Tree × Unit) where
  world := (dangling, ())
  root := some ["r".toList]
  reach := Reach.none
  arguments := []
  environment := []
  input := []
  readLines := 0
  ticks := 0
  output := []

theorem dir_never_widens_rooted :
    NeverWidens machineOfFiles (fun _ => []) rooted ["r".toList] "z".toList ↔
      ¬DanglesOutside dangling 40 ["r".toList] "z".toList :=
  dir_never_widens machineOfFiles (fun _ => []) rooted ["r".toList] "z".toList (by decide)

/-- Through the link, `Io.save` makes a file beside the root. -/
theorem dir_widens :
    machineOfFiles.platform.canonicalize rooted.world ["r".toList] = some ["r".toList] ∧
      ¬NeverWidens machineOfFiles (fun _ => []) rooted ["r".toList] "x".toList ∧
      (performSave machineOfFiles.platform rooted.world ["r".toList] "x".toList []).2.1.entry
        ["y".toList] = some (.file []) := by
  refine ⟨by decide, ?_, by decide⟩
  rintro ⟨-, new, -⟩
  have outside := new ["r".toList, "x".toList] (by decide) ["y".toList] (Or.inr (by decide))
  exact absurd outside (by decide)

end Deed.Interp
