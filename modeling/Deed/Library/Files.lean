import Mathlib

/-!
# File trees with symbolic links

A tree of directories, files and links, and how a path is walked through it: a
link is followed wherever it stands, up to a number of links, and a walk ends at
something that is there, at a place where something could be made, or nowhere.
-/

namespace Deed.Library

/-- One step of a path. -/
inductive Component (Name : Type) where
  | rootDir
  | curDir
  | parentDir
  | normal (name : Name)
deriving DecidableEq, Repr

/-- What stands at a place. -/
inductive Entry (Name Contents : Type) where
  | directory
  | file (contents : Contents)
  | link (target : List (Component Name))
deriving DecidableEq, Repr

/-- What stands at each place, named by the way there from the root.  What is above
something that stands is a directory. -/
structure Files (Name Contents : Type) where
  entry : List Name → Option (Entry Name Contents)
  root : entry [] = some .directory
  tree : ∀ place name, entry (place ++ [name]) ≠ none → entry place = some .directory

/-- Where a walk ends. -/
inductive Located (Name : Type) where
  | found (place : List Name)
  /-- Nothing is there, in a directory that is. -/
  | missing (place : List Name)
  | failed
deriving DecidableEq, Repr

namespace Files

variable {Name Contents : Type} {files : Files Name Contents} {place start : List Name}
  {name : Name} {todo : List (Component Name)} {limit : Nat}

/-- Walks along a path from a directory, where `follow` goes on at a link. -/
def walkWith (files : Files Name Contents)
    (follow : List Name → List (Component Name) → Located Name) :
    List Name → List (Component Name) → Located Name
  | place, [] => .found place
  | _, .rootDir :: rest => walkWith files follow [] rest
  | place, .curDir :: rest => walkWith files follow place rest
  | place, .parentDir :: rest => walkWith files follow place.dropLast rest
  | place, .normal name :: rest =>
      match files.entry (place ++ [name]) with
      | some .directory => walkWith files follow (place ++ [name]) rest
      | some (.file _) =>
          match rest with
          | [] => .found (place ++ [name])
          | _ :: _ => .failed
      | some (.link target) => follow place (target ++ rest)
      | none =>
          match rest with
          | [] => .missing (place ++ [name])
          | _ :: _ => .failed

/-- Walks along a path and follows as many links as `limit` says. -/
def walk (files : Files Name Contents) :
    Nat → List Name → List (Component Name) → Located Name
  | 0 => files.walkWith fun _ _ => .failed
  | limit + 1 => files.walkWith (files.walk limit)

/-- Where an absolute path leads. -/
def locate (files : Files Name Contents) (limit : Nat) (path : List Name) : Located Name :=
  files.walk limit [] (path.map .normal)

/-! ## Places -/

/-- A directory or a file, and no link. -/
def Settled (files : Files Name Contents) (place : List Name) : Prop :=
  files.entry place = some .directory ∨ ∃ contents, files.entry place = some (.file contents)

/-- Nothing is there, in a directory that is. -/
def Vacant (files : Files Name Contents) (place : List Name) : Prop :=
  files.entry place = none ∧
    ∃ parent name, place = parent ++ [name] ∧ files.entry parent = some .directory

theorem above {more : List Name} (stands : files.entry (place ++ more) ≠ none)
    (more_ne : more ≠ []) : files.entry place = some .directory := by
  induction more using List.reverseRecOn with
  | nil => exact absurd rfl more_ne
  | append_singleton front last ih =>
      rw [← List.append_assoc] at stands
      have directory := files.tree _ _ stands
      rcases front with _ | ⟨first, rest⟩
      · rwa [List.append_nil] at directory
      · exact ih (by rw [directory]; exact Option.some_ne_none _) (List.cons_ne_nil _ _)

theorem above_directory {more : List Name}
    (directory : files.entry (place ++ more) = some .directory) :
    files.entry place = some .directory := by
  rcases more with _ | ⟨first, rest⟩
  · rwa [List.append_nil] at directory
  · exact files.above (by rw [directory]; exact Option.some_ne_none _) (List.cons_ne_nil _ _)

theorem dropLast_directory (directory : files.entry place = some .directory) :
    files.entry place.dropLast = some .directory := by
  rcases List.eq_nil_or_concat place with rfl | ⟨parent, last, rfl⟩
  · exact directory
  · rw [List.concat_eq_append] at directory ⊢
    rw [List.dropLast_concat]
    exact files.above_directory directory

/-! ## Walks -/

theorem walkWith_spec {follow : List Name → List (Component Name) → Located Name}
    (good : Located Name → Prop) (failed : good .failed)
    (found : ∀ place, files.Settled place → good (.found place))
    (missing : ∀ place, files.Vacant place → good (.missing place))
    (follows : ∀ place todo, files.entry place = some .directory → good (follow place todo))
    (directory : files.entry place = some .directory) :
    good (files.walkWith follow place todo) := by
  induction todo generalizing place with
  | nil => exact found place (Or.inl directory)
  | cons component rest ih =>
      cases component with
      | rootDir => exact ih files.root
      | curDir => exact ih directory
      | parentDir => exact ih (dropLast_directory directory)
      | normal name =>
          unfold walkWith
          cases entry : files.entry (place ++ [name]) with
          | none =>
              cases rest with
              | nil => exact missing _ ⟨entry, place, name, rfl, directory⟩
              | cons next rest => exact failed
          | some there =>
              cases there with
              | directory => exact ih entry
              | file contents =>
                  cases rest with
                  | nil => exact found _ (Or.inr ⟨contents, entry⟩)
                  | cons next rest => exact failed
              | link target => exact follows place (target ++ rest) directory

/-- A walk from a directory ends at something settled, at a vacant place, or nowhere. -/
theorem walk_spec (good : Located Name → Prop) (failed : good .failed)
    (found : ∀ place, files.Settled place → good (.found place))
    (missing : ∀ place, files.Vacant place → good (.missing place))
    (directory : files.entry place = some .directory) :
    good (files.walk limit place todo) := by
  induction limit generalizing place todo with
  | zero => exact walkWith_spec good failed found missing (fun _ _ _ => failed) directory
  | succ limit ih =>
      exact walkWith_spec good failed found missing (fun _ _ standing => ih standing) directory

theorem walk_found (directory : files.entry start = some .directory)
    (ends : files.walk limit start todo = .found place) : files.Settled place := by
  have spec := @walk_spec _ _ files start todo limit
    (fun located => ∀ place, located = .found place → files.Settled place) nofun
    (fun place settled other same => by rw [← Located.found.inj same]; exact settled)
    nofun directory
  exact spec place ends

theorem walk_missing (directory : files.entry start = some .directory)
    (ends : files.walk limit start todo = .missing place) : files.Vacant place := by
  have spec := @walk_spec _ _ files start todo limit
    (fun located => ∀ place, located = .missing place → files.Vacant place) nofun nofun
    (fun place vacant other same => by rw [← Located.missing.inj same]; exact vacant) directory
  exact spec place ends

theorem locate_found {path : List Name} (ends : files.locate limit path = .found place) :
    files.Settled place :=
  walk_found files.root ends

theorem locate_missing {path : List Name} (ends : files.locate limit path = .missing place) :
    files.Vacant place :=
  walk_missing files.root ends

/-- One walk down, without its number of links. -/
theorem walk_cases (files : Files Name Contents) (limit : Nat) :
    ∃ follow, files.walk limit = files.walkWith follow := by
  cases limit with
  | zero => exact ⟨_, rfl⟩
  | succ limit => exact ⟨_, rfl⟩

theorem walk_nil : files.walk limit place [] = .found place := by
  rcases files.walk_cases limit with ⟨follow, shape⟩
  rw [shape]
  rfl

theorem walk_directory (entry : files.entry (place ++ [name]) = some .directory) :
    files.walk limit place (.normal name :: todo) = files.walk limit (place ++ [name]) todo := by
  rcases files.walk_cases limit with ⟨follow, shape⟩
  rw [shape]
  simp only [walkWith, entry]

theorem walk_file {contents : Contents}
    (entry : files.entry (place ++ [name]) = some (.file contents)) :
    files.walk limit place (.normal name :: todo) =
      if todo = [] then .found (place ++ [name]) else .failed := by
  rcases files.walk_cases limit with ⟨follow, shape⟩
  rw [shape]
  simp only [walkWith, entry]
  cases todo with
  | nil => rfl
  | cons next rest => rfl

theorem walk_vacant (entry : files.entry (place ++ [name]) = none) :
    files.walk limit place (.normal name :: todo) =
      if todo = [] then .missing (place ++ [name]) else .failed := by
  rcases files.walk_cases limit with ⟨follow, shape⟩
  rw [shape]
  simp only [walkWith, entry]
  cases todo with
  | nil => rfl
  | cons next rest => rfl

theorem walk_names {names : List Name}
    (directory : files.entry (start ++ names) = some .directory) :
    files.walk limit start (names.map .normal ++ todo) =
      files.walk limit (start ++ names) todo := by
  induction names generalizing start with
  | nil => rw [List.append_nil, List.map_nil, List.nil_append]
  | cons name names ih =>
      rw [List.append_cons] at directory ⊢
      rw [List.map_cons, List.cons_append, walk_directory (above_directory directory)]
      exact ih directory

/-- A walk goes through a directory named by its place. -/
theorem locate_append {more : List Name} (directory : files.entry place = some .directory) :
    files.locate limit (place ++ more) = files.walk limit place (more.map .normal) := by
  rw [locate, List.map_append]
  exact walk_names (files.root ▸ directory)

/-- A directory or a file is where its own name leads. -/
theorem locate_settled (settled : files.Settled place) :
    files.locate limit place = .found place := by
  rcases settled with directory | ⟨contents, file⟩
  · have through := @locate_append _ _ files place limit [] directory
    rw [List.append_nil] at through
    rw [through, List.map_nil, walk_nil]
  · rcases List.eq_nil_or_concat place with rfl | ⟨parent, name, rfl⟩
    · rw [files.root] at file
      exact absurd file (by simp)
    · rw [List.concat_eq_append] at file ⊢
      have directory := files.tree parent name (by rw [file]; exact Option.some_ne_none _)
      rw [locate_append directory, List.map_singleton, walk_file file]
      rfl

/-! ## Changes -/

theorem Vacant.above (vacant : files.Vacant place) :
    files.entry place.dropLast = some .directory := by
  rcases vacant with ⟨-, parent, name, rfl, directory⟩
  rw [List.dropLast_concat]
  exact directory

theorem above_file {contents : Contents} (file : files.entry place = some (.file contents)) :
    files.entry place.dropLast = some .directory := by
  rcases List.eq_nil_or_concat place with rfl | ⟨parent, name, rfl⟩
  · exact files.root
  · rw [List.concat_eq_append] at file ⊢
    rw [List.dropLast_concat]
    exact files.tree parent name (by rw [file]; exact Option.some_ne_none _)

/-- Whether every directory of one tree is a directory of another, which has no link that is
not in the first. -/
structure Keeps (files later : Files Name Contents) : Prop where
  directory : ∀ place, files.entry place = some .directory → later.entry place = some .directory
  link : ∀ place target, later.entry place = some (.link target) →
    files.entry place = some (.link target)

theorem Keeps.refl (files : Files Name Contents) : files.Keeps files where
  directory _ standing := standing
  link _ _ linked := linked

/-- A place in a directory, with no link there. -/
def Plain (files : Files Name Contents) (place : List Name) : Prop :=
  files.entry place.dropLast = some .directory ∧
    ∀ target, files.entry place ≠ some (.link target)

theorem Settled.plain (settled : files.Settled place) : files.Plain place := by
  rcases settled with directory | ⟨contents, file⟩
  · exact ⟨dropLast_directory directory, by rw [directory]; simp⟩
  · exact ⟨above_file file, by rw [file]; simp⟩

theorem Keeps.plain {later : Files Name Contents} (keeps : files.Keeps later)
    (plain : files.Plain place) : later.Plain place :=
  ⟨keeps.directory _ plain.1, fun target linked => plain.2 target (keeps.link _ _ linked)⟩

/-- Where a name in a plain place leads: nowhere unless the place is a directory. -/
theorem locate_in_plain (plain : files.Plain place)
    (located : files.locate limit (place ++ [name]) ≠ .failed) :
    files.entry place = some .directory := by
  rcases List.eq_nil_or_concat place with rfl | ⟨parent, last, rfl⟩
  · exact files.root
  · rw [List.concat_eq_append] at plain located ⊢
    rcases plain with ⟨above, unlinked⟩
    rw [List.dropLast_concat] at above
    rw [List.append_assoc, locate_append above, List.map_append, List.map_singleton,
      List.singleton_append] at located
    cases entry : files.entry (parent ++ [last]) with
    | none =>
        rw [walk_vacant entry, if_neg (by simp)] at located
        exact absurd rfl located
    | some there =>
        cases there with
        | directory => rfl
        | file contents =>
            rw [walk_file entry, if_neg (by simp)] at located
            exact absurd rfl located
        | link target => exact absurd entry (unlinked target)

/-- A plain place is where its own name leads. -/
theorem Plain.found {other : List Name} (plain : files.Plain place)
    (located : files.locate limit place = .found other) : other = place := by
  rcases List.eq_nil_or_concat place with rfl | ⟨parent, last, rfl⟩
  · rw [locate, List.map_nil, walk_nil] at located
    exact (Located.found.inj located).symm
  · rw [List.concat_eq_append] at plain located ⊢
    rcases plain with ⟨above, unlinked⟩
    rw [List.dropLast_concat] at above
    cases entry : files.entry (parent ++ [last]) with
    | none =>
        rw [locate_append above, List.map_singleton, walk_vacant entry, if_pos rfl] at located
        exact absurd located (by simp)
    | some there =>
        cases there with
        | directory =>
            rw [locate_settled (Or.inl entry)] at located
            exact (Located.found.inj located).symm
        | file contents =>
            rw [locate_settled (Or.inr ⟨contents, entry⟩)] at located
            exact (Located.found.inj located).symm
        | link target => exact absurd entry (unlinked target)

section Changes

variable [DecidableEq Name]

/-- The tree with something at a place that is no directory, in a directory that is. -/
def put (files : Files Name Contents) (place : List Name) (entry : Entry Name Contents)
    (above : files.entry place.dropLast = some .directory)
    (free : files.entry place ≠ some .directory) : Files Name Contents where
  entry other := if other = place then some entry else files.entry other
  root := by
    rw [if_neg (by rintro rfl; exact free files.root)]
    exact files.root
  tree other name stands := by
    split at stands
    · rename_i same
      rw [← same, List.dropLast_concat] at above
      rw [if_neg (by rintro rfl; exact free above)]
      exact above
    · have directory := files.tree other name stands
      rw [if_neg (by rintro rfl; exact free directory)]
      exact directory

/-- The tree with nothing in it. -/
def bare : Files Name Contents where
  entry place := if place = [] then some .directory else none
  root := rfl
  tree place name stands := absurd (if_neg (List.append_ne_nil_of_right_ne_nil _ (by simp))) stands

/-- The tree without what is at a place that is no directory. -/
def erase (files : Files Name Contents) (place : List Name)
    (free : files.entry place ≠ some .directory) : Files Name Contents where
  entry other := if other = place then none else files.entry other
  root := by
    rw [if_neg (by rintro rfl; exact free files.root)]
    exact files.root
  tree other name stands := by
    split at stands
    · exact absurd rfl stands
    · have directory := files.tree other name stands
      rw [if_neg (by rintro rfl; exact free directory)]
      exact directory

theorem put_keeps {entry : Entry Name Contents}
    {above : files.entry place.dropLast = some .directory}
    {free : files.entry place ≠ some .directory} (unlinked : ∀ target, entry ≠ .link target) :
    files.Keeps (files.put place entry above free) := by
  constructor
  · intro other standing
    show (if other = place then some entry else files.entry other) = _
    rw [if_neg (by rintro rfl; exact free standing)]
    exact standing
  · intro other target linked
    change (if other = place then some entry else files.entry other) = _ at linked
    split at linked
    · exact absurd (Option.some.inj linked) (unlinked target)
    · exact linked

theorem erase_keeps {free : files.entry place ≠ some .directory} :
    files.Keeps (files.erase place free) := by
  constructor
  · intro other standing
    show (if other = place then none else files.entry other) = _
    rw [if_neg (by rintro rfl; exact free standing)]
    exact standing
  · intro other target linked
    change (if other = place then none else files.entry other) = _ at linked
    split at linked
    · exact absurd linked (by simp)
    · exact linked

/-- Writes a file where a path leads, and makes it when nothing is there. -/
def write (files : Files Name Contents) (limit : Nat) (path : List Name) (contents : Contents) :
    Option (Files Name Contents) :=
  match located : files.locate limit path with
  | .found place =>
      match entry : files.entry place with
      | some (.file _) =>
          some (files.put place (.file contents) (above_file entry) (by rw [entry]; simp))
      | _ => none
  | .missing place =>
      some (files.put place (.file contents) (locate_missing located).above
        (by rw [(locate_missing located).1]; simp))
  | .failed => none

variable {later : Files Name Contents} {path : List Name}

theorem write_keeps {contents : Contents}
    (written : files.write limit path contents = some later) : files.Keeps later := by
  unfold write at written
  split at written
  · split at written
    · rw [← Option.some.inj written]
      exact put_keeps (by simp)
    · exact absurd written (by simp)
  · rw [← Option.some.inj written]
    exact put_keeps (by simp)
  · exact absurd written (by simp)

variable [DecidableEq Contents]

/-- Makes a directory at the end of a path.  A link that is there already is not followed. -/
def createDir (files : Files Name Contents) (limit : Nat) (path : List Name) :
    Option (Files Name Contents) :=
  match path.getLast? with
  | none => none
  | some name =>
      match files.locate limit path.dropLast with
      | .found parent =>
          if above : files.entry parent = some .directory ∧ files.entry (parent ++ [name]) = none
          then
            some (files.put (parent ++ [name]) .directory
              (by rw [List.dropLast_concat]; exact above.1) (by rw [above.2]; simp))
          else none
      | _ => none

/-- Removes the file or the link at the end of a path. -/
def removeFile (files : Files Name Contents) (limit : Nat) (path : List Name) :
    Option (Files Name Contents) :=
  match path.getLast? with
  | none => none
  | some name =>
      match files.locate limit path.dropLast with
      | .found parent =>
          if free : files.entry (parent ++ [name]) ≠ none ∧
              files.entry (parent ++ [name]) ≠ some .directory
          then some (files.erase (parent ++ [name]) free.2)
          else none
      | _ => none

/-- What making a directory does. -/
theorem createDir_spec (made : files.createDir limit path = some later) :
    ∃ parent name place, path = parent ++ [name] ∧
      files.locate limit parent = .found place ∧ files.entry (place ++ [name]) = none ∧
      files.Keeps later ∧ later.entry (place ++ [name]) = some .directory := by
  unfold createDir at made
  split at made
  · exact absurd made (by simp)
  · rename_i name last
    split at made
    · rename_i place located
      split at made
      · rename_i above
        rw [← Option.some.inj made]
        refine ⟨path.dropLast, name, place, ?_, located, above.2, put_keeps (by simp), if_pos rfl⟩
        rw [List.dropLast_append_getLast? name last]
      · exact absurd made (by simp)
    · exact absurd made (by simp)

theorem removeFile_keeps (removed : files.removeFile limit path = some later) :
    files.Keeps later := by
  unfold removeFile at removed
  split at removed
  · exact absurd removed (by simp)
  · split at removed
    · split at removed
      · rw [← Option.some.inj removed]
        exact erase_keeps
      · exact absurd removed (by simp)
    · exact absurd removed (by simp)

end Changes

end Files

end Deed.Library
