import Deed.Fetch.Sha256
import Deed.Library.Shelf

/-!
# The dependency cache

`crates/deed-fetch/src/{cache,verify,lib}.rs` and `retrieve` of `crates/deed-cli/src/main.rs`,
as the steps that any number of callers make in one directory.  A caller is one call of
`retrieve` or `verify_and_cache`, and the reading of the file that the compiler makes of the
path it answers; a process makes several, one after the other.
-/

namespace Deed.Fetch

open Deed.Library

/-! ## Hashes -/

/-- Whether a hash is spelled the way a manifest has to spell it: sixty-four hexadecimal
digits, in lowercase. -/
def isDigest (text : String) : Bool :=
  text.length == 64 && text.toList.all fun digit => digit.isDigit || ('a' ≤ digit && digit ≤ 'f')

/-- A hash as the manifest's parser hands it on. -/
structure Hash where
  text : String
  spelled : isDigest text = true
deriving DecidableEq

/-- `root.join(hash)` -/
def Hash.path (hash : Hash) : String := hash.text

/-- `root.join(format!("{hash}.tmp"))` -/
def Hash.temporary (hash : Hash) : String := hash.text ++ ".tmp"

/-- `verify`: the digest of the bytes is the expected one. -/
def verify (expected : Hash) (bytes : List UInt8) : Bool := digest bytes == expected.text

/-! ## Callers -/

/-- What a caller does next. -/
inductive Stage where
  /-- `cache.contains(&hash)` -/
  | contains
  /-- `read_location(&url)` -/
  | readLocation
  /-- `verify(expected_hash, bytes)` -/
  | verify
  /-- `std::fs::write(&tmp, bytes)`, before the file is open -/
  | create
  /-- and while it is, with how many of the bytes are in it; then the rename -/
  | write (file written : Nat)
  /-- The path was answered, and the compiler opens it. -/
  | open_
  /-- It has read some of the file. -/
  | read (file : Nat) (got : List UInt8)
  /-- It goes on with what it read. -/
  | handed (got : List UInt8)
  /-- An error was answered. -/
  | failed

structure Caller where
  hash : Hash
  /-- What the location answered with. -/
  bytes : List UInt8
  stage : Stage
  /-- Whether its process has not stopped for good. -/
  running : Bool

/-- The directory, the callers, and who opened a file last. -/
structure State where
  disk : Shelf String UInt8
  callers : Nat → Option Caller
  opener : Nat → Option Nat

def State.start : State := ⟨Shelf.bare, fun _ => none, fun _ => none⟩

/-! ## Steps -/

inductive Event where
  | retrieve (hash : Hash)
  | verifyAndCache (hash : Hash) (bytes : List UInt8)
  | look
  | answer (bytes : List UInt8)
  | check
  | create
  | write (count : Nat)
  | rename
  | open_
  | read (count : Nat)
  | stop

/-- A caller that goes on with something else. -/
def State.goesOn (state : State) (index : Nat) (caller : Caller) (stage : Stage) : State :=
  { state with callers := Function.update state.callers index (some { caller with stage }) }

/-- What a running caller's next step does, when it is this one. -/
def advance (state : State) (index : Nat) (caller : Caller) : Event → Option State
  | .look =>
      match caller.stage with
      | .contains =>
          if (state.disk.names caller.hash.path).isSome then
            some (state.goesOn index caller .open_)
          else some (state.goesOn index caller .readLocation)
      | _ => none
  | .answer bytes =>
      match caller.stage with
      | .readLocation => some (state.goesOn index { caller with bytes } .verify)
      | _ => none
  | .check =>
      match caller.stage with
      | .verify =>
          if verify caller.hash caller.bytes then some (state.goesOn index caller .create)
          else some (state.goesOn index caller .failed)
      | _ => none
  | .create =>
      match caller.stage with
      | .create =>
          let (file, disk) := state.disk.create caller.hash.temporary
          some { (state.goesOn index caller (.write file 0)) with
            disk, opener := Function.update state.opener file (some index) }
      | _ => none
  | .write count =>
      match caller.stage with
      | .write file written =>
          if written + count ≤ caller.bytes.length then
            some { (state.goesOn index caller (.write file (written + count))) with
              disk := state.disk.write 0 file written
                ((caller.bytes.drop written).take count) }
          else none
      | _ => none
  -- All the bytes are written.  The file that gets the name is the one that has the
  -- temporary name now.
  | .rename =>
      match caller.stage with
      | .write _ written =>
          if written = caller.bytes.length then
            match state.disk.rename caller.hash.temporary caller.hash.path with
            | some disk => some { (state.goesOn index caller .open_) with disk }
            | none => some (state.goesOn index caller .failed)
          else none
      | _ => none
  | .open_ =>
      match caller.stage with
      | .open_ =>
          match state.disk.names caller.hash.path with
          | some file => some (state.goesOn index caller (.read file []))
          | none => some (state.goesOn index caller .failed)
      | _ => none
  | .read count =>
      match caller.stage with
      | .read file got =>
          -- Nothing more comes where the file ends.
          if (state.disk.contents file).length ≤ got.length then
            some (state.goesOn index caller (.handed got))
          else
            some (state.goesOn index caller
              (.read file (got ++ ((state.disk.contents file).drop got.length).take count)))
      | _ => none
  | .stop =>
      some { state with
        callers := Function.update state.callers index (some { caller with running := false }) }
  | .retrieve _ => none
  | .verifyAndCache _ _ => none

/-- One step of one caller, or nothing when that is not its next one. -/
def step (state : State) (index : Nat) (event : Event) : Option State :=
  match state.callers index with
  | some caller => if caller.running then advance state index caller event else none
  | none =>
      match event with
      | .retrieve hash =>
          some { state with
            callers := Function.update state.callers index (some ⟨hash, [], .contains, true⟩) }
      | .verifyAndCache hash bytes =>
          some { state with
            callers := Function.update state.callers index (some ⟨hash, bytes, .verify, true⟩) }
      | _ => none

/-! ## Runs that keep apart -/

/-- A caller that has a temporary file open has all its bytes in it. -/
def Caller.Finished (caller : Caller) : Prop :=
  ∀ file written, caller.stage = .write file written → written = caller.bytes.length

/-- Whoever opened the temporary file last has put all its bytes in before it is renamed, and
whoever else writes to the file writes the same bytes. -/
def Orderly (state : State) (index : Nat) : Event → Prop
  | .rename => ∀ caller file other last, state.callers index = some caller →
      state.disk.names caller.hash.temporary = some file → state.opener file = some other →
        state.callers other = some last → last.Finished
  | .write _ => ∀ caller file written other last, state.callers index = some caller →
      caller.stage = .write file written → state.opener file = some other →
        state.callers other = some last → last.bytes = caller.bytes
  | _ => True

/-- A state that some run reaches whose steps are all orderly. -/
inductive Reached : State → Prop
  | start : Reached .start
  | step {state next index event} : Reached state → step state index event = some next →
      Orderly state index event → Reached next

/-- A state that some run reaches. -/
inductive Reachable : State → Prop
  | start : Reachable .start
  | step {state next index event} : Reachable state → step state index event = some next →
      Reachable next

/-- What the cache promises: what stands under a hash has that hash, and so has what the
compiler is handed. -/
structure State.Kept (state : State) : Prop where
  stands : ∀ (hash : Hash) file, state.disk.names hash.path = some file →
    digest (state.disk.contents file) = hash.text
  handed : ∀ index caller got, state.callers index = some caller →
    caller.stage = .handed got → digest got = caller.hash.text

end Deed.Fetch
