import Mathlib

/-!
# Readers of byte strings

A reader takes a value off the front of a byte string and hands back what is
left.  `Reads reader bytes value` says that it takes exactly `bytes` for
`value`, whatever comes after them; stated with the arbitrary rest, that is
what composes along the concatenation of two encodings, and it makes a format
that has a reader unambiguous.
-/

namespace Deed.Library

/-- Takes a value off the front of some bytes, or fails. -/
abbrev Reader (α : Type) : Type := StateT (List UInt8) Option α

variable {α β : Type}

/-- `reader` takes exactly `bytes`, for `value`. -/
def Reads (reader : Reader α) (bytes : List UInt8) (value : α) : Prop :=
  ∀ rest, reader.run (bytes ++ rest) = some (value, rest)

/-- One byte string is read as one value. -/
theorem Reads.unique {reader : Reader α} {bytes : List UInt8} {left right : α}
    (readsLeft : Reads reader bytes left)
    (readsRight : Reads reader bytes right) : left = right := by
  have same := (readsLeft []).symm.trans (readsRight [])
  exact congrArg Prod.fst (Option.some.inj same)

theorem Reads.pure (value : α) : Reads (pure value : Reader α) [] value := by
  intro rest
  rfl

/-- What a reader does after a step that has been run. -/
theorem run_bind_of_run {first : Reader α} {f : α → Reader β}
    {bytes rest : List UInt8} {value : α} (ran : first.run bytes = some (value, rest)) :
    (first >>= f).run bytes = (f value).run rest := by
  rw [StateT.run_bind, ran]
  rfl

theorem Reads.bind {first : Reader α} {f : α → Reader β}
    {bytes more : List UInt8} {value : α} {result : β}
    (reads : Reads first bytes value) (then_ : Reads (f value) more result) :
    Reads (first >>= f) (bytes ++ more) result := by
  intro rest
  rw [List.append_assoc, run_bind_of_run (reads _)]
  exact then_ rest

/-- A step that is taken on a condition that is met. -/
theorem Reads.met {condition : Prop} [Decidable condition] {reader other : Reader α}
    {bytes : List UInt8} {value : α} (met : condition)
    (reads : Reads reader bytes value) :
    Reads (if condition then reader else other) bytes value := by
  rwa [if_pos met]

theorem Reads.unmet {condition : Prop} [Decidable condition] {reader other : Reader α}
    {bytes : List UInt8} {value : α} (unmet : ¬ condition)
    (reads : Reads reader bytes value) :
    Reads (if condition then other else reader) bytes value := by
  rwa [if_neg unmet]

/-- The last step of a reader, which only wraps what was read. -/
theorem Reads.map {first : Reader α} {bytes : List UInt8} {value : α}
    (wrap : α → β) (reads : Reads first bytes value) :
    Reads (do return wrap (← first)) bytes (wrap value) := by
  have whole := Reads.bind (f := fun read => Pure.pure (wrap read)) reads
    (Reads.pure (wrap value))
  rwa [List.append_nil] at whole

namespace Reader

/-- The next byte. -/
def byte : Reader UInt8 := fun bytes =>
  match bytes with
  | [] => none
  | first :: rest => some (first, rest)

/-- The next byte, which has to be `expected`. -/
def expect (expected : UInt8) : Reader Unit := do
  let found ← byte
  if found = expected then return () else failure

/-- What `decode` makes of the next byte. -/
def decoded (decode : UInt8 → Option α) : Reader α := fun bytes =>
  match bytes with
  | [] => none
  | first :: rest => (decode first).map fun value => (value, rest)

/-- The next `count` bytes. -/
def bytes : Nat → Reader (List UInt8)
  | 0 => return []
  | count + 1 => do
      let first ← byte
      let rest ← bytes count
      return first :: rest

/-- `count` values, one after the other. -/
def times (reader : Reader α) : Nat → Reader (List α)
  | 0 => return []
  | count + 1 => do
      let first ← reader
      let rest ← times reader count
      return first :: rest

/-- Reads `count` bytes with a reader that has to use all of them. -/
def within (reader : Reader α) (count : Nat) : Reader α := do
  let content ← bytes count
  match reader.run content with
  | some (value, []) => return value
  | _ => failure

/-- A value when the next byte is `tag`, and nothing when it is not. -/
def tagged (tag : UInt8) (reader : Reader α) : Reader (Option α) := fun bytes =>
  match bytes with
  | first :: rest =>
      if first = tag then
        (reader.run rest).map fun (value, left) => (some value, left)
      else some (none, bytes)
  | [] => some (none, [])

end Reader

namespace Reads

open Reader

theorem byte (value : UInt8) : Reads Reader.byte [value] value := by
  intro rest
  rfl

theorem expect (value : UInt8) : Reads (Reader.expect value) [value] () := by
  exact (Reads.byte value).bind (Reads.met rfl (Reads.pure ()))

theorem decoded {decode : UInt8 → Option α} {first : UInt8} {value : α}
    (known : decode first = some value) :
    Reads (Reader.decoded decode) [first] value := by
  intro rest
  show (decode first).map (fun value => (value, rest)) = _
  rw [known]
  rfl

theorem bytes (content : List UInt8) :
    Reads (Reader.bytes content.length) content content := by
  induction content with
  | nil => exact Reads.pure []
  | cons first rest ih =>
      exact (Reads.byte first).bind (ih.map (first :: ·))

/-- A list is read back from the encodings of its elements. -/
theorem times {reader : Reader α} {encode : β → List UInt8} {decode : β → α}
    {values : List β}
    (each : ∀ value ∈ values, Reads reader (encode value) (decode value)) :
    Reads (reader.times values.length) (values.flatMap encode)
      (values.map decode) := by
  induction values with
  | nil => exact Reads.pure []
  | cons first rest ih =>
      have head := each first List.mem_cons_self
      have tail := ih fun value member => each value (List.mem_cons_of_mem _ member)
      exact head.bind (tail.map (decode first :: ·))

theorem within {reader : Reader α} {content : List UInt8} {value : α}
    (reads : Reads reader content value) :
    Reads (reader.within content.length) content value := by
  have whole := reads []
  rw [List.append_nil] at whole
  intro rest
  rw [Reader.within, run_bind_of_run (Reads.bytes content rest)]
  simp [whole]

theorem tagged {reader : Reader α} {tag : UInt8} {content : List UInt8} {value : α}
    (reads : Reads reader content value) :
    Reads (reader.tagged tag) (tag :: content) (some value) := by
  intro rest
  show (reader.tagged tag) (tag :: (content ++ rest)) = some (some value, rest)
  simp [Reader.tagged, reads rest]

end Reads

end Deed.Library
