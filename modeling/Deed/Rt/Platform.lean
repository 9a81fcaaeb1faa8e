import Deed.Rt.Http
import Deed.Rt.Sandbox

/-!
# What the machine is asked

The calls that both engines make on the filesystem, the clock and the network, over a
world that they read and change, and the same calls answered by a file tree with
symbolic links.
-/

namespace Deed.Rt

open Deed.Library

/-- `String::from_utf8`. -/
def fromUtf8 (bytes : List UInt8) : Option Text :=
  bytes.toByteArray.utf8Decode?.map Array.toList

theorem fromUtf8_asBytes (text : Text) : fromUtf8 (asBytes text) = some text := by
  show (text.utf8Encode.utf8Decode?).map Array.toList = some text
  rw [List.utf8Decode?_utf8Encode]
  rfl

theorem asBytes_inj {text other : Text} (same : asBytes text = asBytes other) : text = other := by
  have back := fromUtf8_asBytes text
  rw [same, fromUtf8_asBytes] at back
  exact (Option.some.inj back).symm

/-- What is decoded is what was encoded. -/
theorem fromUtf8_eq_some {bytes : List UInt8} {text : Text} :
    fromUtf8 bytes = some text ↔ asBytes text = bytes := by
  refine ⟨fun decoded => ?_, fun same => same ▸ fromUtf8_asBytes text⟩
  obtain ⟨chars, is_, rfl⟩ := Option.map_eq_some_iff.mp decoded
  have again : (asBytes chars.toList).toByteArray = bytes.toByteArray := by
    have encoded := ByteArray.utf8Encode_get_utf8Decode? (h := Option.isSome_of_eq_some is_)
    simp only [is_, Option.get_some] at encoded
    exact encoded
  have listed := congrArg (fun bytes : ByteArray => bytes.data.toList) again
  simp only [List.toList_data_toByteArray] at listed
  exact listed

theorem asBytes_ascii {c : Char} (small : c.toNat < 128) (text : Text) :
    asBytes (c :: text) = UInt8.ofNat c.toNat :: asBytes text := by
  have one : c.utf8Size = 1 := by
    rw [Char.utf8Size_eq_one_iff]
    show c.toNat ≤ 127
    omega
  rw [asBytes, List.flatMap_cons, String.utf8EncodeChar_eq_singleton one]
  rfl

/-- One entry that `read_dir` gives, as far as it could be read. -/
structure DirEntry where
  isFile : Option Bool
  fileName : Option Text
deriving DecidableEq, Repr

/-- The calls on the machine. -/
structure Platform (World : Type) where
  canonicalize : World → Path → Option Path
  isDir : World → Path → Bool
  pathExists : World → Path → Bool
  readToString : World → Path → Except Text Text
  write : World → Path → Text → Except Text Unit × World
  removeFile : World → Path → Except Text Unit × World
  createDir : World → Path → Except Text Unit × World
  readDir : World → Path → Except Text (List (Option DirEntry))
  /-- Milliseconds since 1970. -/
  sinceEpoch : World → Int64 × World
  exchange : World → Text → List UInt8 → Except Text Response × World

namespace Platform

variable {World : Type}

/-- The names that `Io.list` answers with: those of files, sorted. -/
def fileNames (entries : List (Option DirEntry)) : List Text :=
  (entries.filterMap fun entry =>
    match entry with
    | some ⟨some true, fileName⟩ => fileName
    | _ => none).mergeSort fun one other => decide (one ≤ other)

/-- One question asked over a `Net`, and the world after it. -/
def overTheNetwork (platform : Platform World) (world : World) (reach : Reach)
    (url method : Text) (body : Option Text) : Except Text Text × World :=
  (Deed.Rt.overTheNetwork (fun host bytes => (platform.exchange world host bytes).1) reach url
      method body,
    match reach.resolve url with
    | .error _ => world
    | .ok target =>
        (platform.exchange world (Reach.withPort target.host target.port)
          (requestBytes target method body)).2)

end Platform

/-! ## A file tree -/

/-- Files hold bytes, and names are text. -/
abbrev Tree : Type := Files Text (List UInt8)

/-- What a machine with a file tree says of itself besides. -/
structure Machine (World : Type) where
  /-- The link that is one too many. -/
  limit : Nat
  complaint : Path → Text
  readDir : Tree → Path → Except Text (List (Option DirEntry))
  sinceEpoch : World → Int64 × World
  exchange : World → Text → List UInt8 → Except Text Response × World

namespace Machine

variable {World : Type}

/-- The answer to a call that changes the tree. -/
def changed (machine : Machine World) (world : Tree × World) (path : Path)
    (later : Option Tree) : Except Text Unit × (Tree × World) :=
  match later with
  | some later => (.ok (), later, world.2)
  | none => (.error (machine.complaint path), world)

/-- What `canonicalize` answers: the place a path leads to, with every link resolved. -/
def canonicalize (limit : Nat) (tree : Tree) (path : Path) : Option Path :=
  match tree.locate limit path with
  | .found place => some place
  | _ => none

/-- The calls on the filesystem, answered by the tree. -/
def platform (machine : Machine World) : Platform (Tree × World) where
  canonicalize world path := canonicalize machine.limit world.1 path
  isDir world path :=
    match canonicalize machine.limit world.1 path with
    | some place => decide (world.1.entry place = some .directory)
    | none => false
  pathExists world path := (canonicalize machine.limit world.1 path).isSome
  readToString world path :=
    match (canonicalize machine.limit world.1 path).bind world.1.entry with
    | some (.file contents) =>
        match fromUtf8 contents with
        | some text => .ok text
        | none => .error (machine.complaint path)
    | _ => .error (machine.complaint path)
  write world path contents :=
    machine.changed world path (world.1.write machine.limit path (asBytes contents))
  removeFile world path := machine.changed world path (world.1.removeFile machine.limit path)
  createDir world path := machine.changed world path (world.1.createDir machine.limit path)
  readDir world path := machine.readDir world.1 path
  sinceEpoch world := ((machine.sinceEpoch world.2).1, world.1, (machine.sinceEpoch world.2).2)
  exchange world host bytes :=
    ((machine.exchange world.2 host bytes).1, world.1, (machine.exchange world.2 host bytes).2)

end Machine

end Deed.Rt
