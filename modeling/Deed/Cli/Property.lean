import Deed.Eval.Value
import Deed.Host.Alike
import Deed.Mir.Program

/-!
# Property values in compiled memory

How `crates/deed-cli/src/main.rs` hands the inputs of a property to compiled code and reads
its answer back: a value of the interpreter's is written into the module's memory by type,
and a word of a type is read out of it, to be compared with what the interpreter answered.
-/

namespace Deed.Cli.Property

open Deed.Library Deed.Mir
open Deed.Wasm (Memory)
open Deed.Host (Ended asI64 unsigned)
open Deed.Eval (Value Fields)

/-- A word that travels to compiled code or back. -/
abbrev Word := Wasm.Value

/-! ## Names -/

/-- What a layout that has this name is of: a `Result`, by how the name begins. -/
def namesResult (layout : Layout) : Bool :=
  "Result<".toList.isPrefixOf layout.name.toList

/-- The variant of a layout that a value says it is. -/
def variantName (layout : Layout) : Value → Option String
  | .record _ => layout.variants.head?.map (·.name)
  | .variant _ name _ => some name
  | .result ok _ => some (if ok then "ok" else "err")
  | _ => none

/-- The position of the first variant with a name. -/
def position (layout : Layout) (name : String) : Option Nat :=
  layout.variants.findIdx? fun variant => variant.name = name

/-- What a value holds for a field; a `Result` holds the same for every one. -/
def fieldOf : Value → String → Option Value
  | .record fields, name => Assoc.find? fields name
  | .variant _ _ fields, name => Assoc.find? fields name
  | .result _ value, _ => some value
  | _, _ => none

theorem sizeOf_find? {fields : Fields} {name : String} {inner : Value}
    (found : Assoc.find? fields name = some inner) : sizeOf inner < sizeOf fields := by
  have listed := List.sizeOf_lt_of_mem (Assoc.mem_of_find? found)
  rw [Prod.mk.sizeOf_spec] at listed
  omega

/-- A field is smaller than the value that holds it. -/
theorem sizeOf_fieldOf {value inner : Value} {name : String}
    (found : fieldOf value name = some inner) : sizeOf inner < sizeOf value := by
  cases value with
  | record fields =>
      have smaller := sizeOf_find? found
      rw [Value.record.sizeOf_spec]
      omega
  | variant origin called fields =>
      have smaller := sizeOf_find? found
      rw [Value.variant.sizeOf_spec]
      omega
  | result ok held =>
      cases found
      rw [Value.result.sizeOf_spec]
      omega
  | _ => cases found

/-! ## Writing -/

/-- What writes into the memory: it answers, finds no room or nothing to write, or the host
stops. -/
abbrev Writing := StateT Memory (OptionT (Except Ended))

def writeText (text : String) : Writing Word := fun memory => Host.writeText memory text.toList

def writeList (items : List Word) : Writing Word := fun memory => Host.writeList memory items

def writeAggregate (tag : Option Int64) (fields : List Word) : Writing Word :=
  fun memory => Host.writeAggregate memory tag fields

/-- What is there, or nothing to write. -/
def given {α : Type} (found : Option α) : Writing α := fun memory =>
  .ok (found.map (·, memory))

/-- `encode_property_value` -/
def encodeValue (program : Program) (ty : Ty) (value : Value) : Writing Word :=
  match ty, value with
  | .unit, .unit => pure (.i64 0)
  | .bool, .bool yes => pure (.i32 (if yes then 1 else 0))
  | .int, .int number => pure (.i64 number)
  | .str, .str text => writeText text
  | .list element, .list values => do
      let words ← values.mapM fun value => encodeValue program element value
      writeList words
  | .aggregate id, value => do
      let layout ← given program.layouts[id]?
      let name ← given (variantName layout value)
      let index ← given (position layout name)
      let variant ← given layout.variants[index]?
      let fields ← variant.fields.mapM fun field =>
        match _found : fieldOf value field.name with
        | some inner => encodeValue program field.ty inner
        | none => given none
      writeAggregate (if layout.isTagged then some (Int64.ofNat index) else none) fields
  | _, _ => given none
termination_by sizeOf value
decreasing_by
  · have smaller := List.sizeOf_lt_of_mem ‹_ ∈ _›
    rw [Value.list.sizeOf_spec]
    omega
  · exact sizeOf_fieldOf _found

/-- `encode_property_args`: the arguments of a function, without those of type `Unit`. -/
def encodeArgs (program : Program) : List Ty → List Value → Writing (List Word)
  | [], [] => pure []
  | .unit :: types, .unit :: values => encodeArgs program types values
  | .unit :: _, _ => given none
  | ty :: types, value :: values => do
      let word ← encodeValue program ty value
      let words ← encodeArgs program types values
      pure (word :: words)
  | _, _ => given none

/-! ## Reading -/

/-- `usize::try_from` of a word. -/
def usize (word : Int64) : Option Nat := if word < 0 then none else some word.toInt.toNat

/-- A word of memory as a `usize`. -/
def sizeAt (memory : Memory) (address : Nat) : Option Nat := (memory.load address).bind usize

/-- The text whose address this is. -/
def decodeText (memory : Memory) (address : Nat) : Option String := do
  let characters ← sizeAt memory address
  let bytes ← sizeAt memory (address + Runtime.WORD)
  let start := address + 2 * Runtime.WORD
  if start + bytes ≤ memory.size then
    let text ← Rt.fromUtf8 (memory.slice start bytes)
    if text.length = characters then some (String.ofList text) else none
  else none

section Decode

variable (decode : Ty → Int64 → Option Value → Option Value) (memory : Memory)

/-- The elements of a list that are left from an index on. -/
def decodeElements (element : Ty) (address : Nat) (expected : List Value) :
    Nat → Nat → Option (List Value)
  | 0, _ => some []
  | left + 1, index => do
      let word ← memory.load (address + Runtime.ELEMENTS + index * Runtime.WORD)
      let value ← decode element word expected[index]?
      let values ← decodeElements element address expected left (index + 1)
      some (value :: values)

/-- The fields of a variant that are left from a position on, put to those that were read. -/
def decodeFields (tagged : Bool) (address : Nat) (expected : Option Value) :
    List Field → Nat → Fields → Option Fields
  | [], _, read => some read
  | field :: fields, index, read => do
      let word ← memory.load (address + ((if tagged then 1 else 0) + index) * Runtime.WORD)
      let value ← decode field.ty word (expected.bind (fieldOf · field.name))
      decodeFields tagged address expected fields (index + 1)
        (Assoc.insert read field.name value)

/-- The elements of a list that is expected. -/
def elementsOf : Option Value → List Value
  | some (.list values) => values
  | _ => []

/-- Where the module that declared an expected variant is named. -/
def originOf : Option Value → Option String
  | some (.variant origin _ _) => some origin
  | _ => none

/-- The value of a layout that some fields are. -/
def assembled (layout : Layout) (name : String) (expected : Option Value) (fields : Fields) :
    Option Value :=
  if namesResult layout then do
    let payload ← Assoc.find? fields "value"
    if name = "ok" then some (.ok payload)
    else if name = "err" then some (.err payload)
    else none
  else if layout.choice then do
    let origin ← originOf expected
    some (.variant origin name fields)
  else some (.record fields)

def decodeAggregate (program : Program) (id : LayoutId) (address : Nat)
    (expected : Option Value) : Option Value := do
  let layout ← program.layouts[id]?
  let index ← if layout.isTagged then sizeAt memory address else some 0
  let variant ← layout.variants[index]?
  let fields ← decodeFields decode memory layout.isTagged address expected variant.fields 0 []
  assembled layout variant.name expected fields

end Decode

/-- `decode_property_word`: a word of a type, read from memory, with the value that it is
expected to be and how many values deep there is left to go. -/
def decodeWord (program : Program) (memory : Memory) :
    Nat → Ty → Int64 → Option Value → Option Value
  | 0, _, _, _ => none
  | remaining + 1, ty, word, expected =>
      match ty with
      | .unit => some .unit
      | .bool => some (.bool (word != 0))
      | .int => some (.int word)
      | .str => do
          let address ← usize word
          let text ← decodeText memory address
          some (.str text)
      | .list element => do
          let address ← usize word
          let length ← sizeAt memory address
          if address + Runtime.ELEMENTS + length * Runtime.WORD ≤ memory.size then
            let values ← decodeElements (decodeWord program memory remaining) memory element
              address (elementsOf expected) length 0
            some (.list values)
          else none
      | .aggregate id => do
          let address ← usize word
          decodeAggregate (decodeWord program memory remaining) memory program id address expected
      | .capability => none
      | .closure => none

/-- How many values deep a word is read. -/
@[irreducible]
def DEPTH : Nat := 65

/-- `decode_property_result`: what a function of a type answered. -/
def decodeResult (program : Program) (ty : Ty) (compiled : Option Word) (memory : Memory)
    (expected : Value) : Option Value :=
  match ty, compiled with
  | .unit, none => some .unit
  | .bool, some (.i32 value) => some (.bool (value != 0))
  | ty, some (.i64 word) => decodeWord program memory DEPTH ty word (some expected)
  | _, _ => none

/-- How an attempt at a property ends. -/
inductive Attempt where
  | rejected
  | passed (value : Value)
  | failed

/-- `compiled_property_attempt`, from what the interpreter made of the inputs and what the
compiled function answered in which memory, unless it stopped. -/
def attempt (program : Program) (ty : Ty) (interpreted : Attempt)
    (compiled : Option (Option Word × Memory)) : Attempt :=
  match interpreted, compiled with
  | .rejected, _ => .rejected
  | .failed, _ => .failed
  | .passed _, none => .failed
  | .passed value, some (answer, memory) =>
      match decodeResult program ty answer memory value with
      | some decoded => if decoded.same value then .passed value else .failed
      | none => .failed

/-! ## Values of a type -/

/-- Entries for the fields of a variant, one each, in the order of their names. -/
structure Keyed (variant : Variant) (fields : Fields) : Prop where
  sorted : (fields.map Prod.fst).Pairwise (· < ·)
  names : (fields.map Prod.fst).Perm (variant.fields.map Field.name)

/-- Where the variant of a layout is that its name is first found at. -/
structure Named (layout : Layout) (index : Nat) (variant : Variant) : Prop where
  first : position layout variant.name = some index
  found : layout.variants[index]? = some variant

/-- A value is made as a variant of a layout.  A declared type has the module that declared it;
the other layouts are those of `Result`, and are named so. -/
inductive Made (declared : LayoutId → Option String) (id : LayoutId) (layout : Layout)
    (variant : Variant) : Value → Prop
  | record {origin : String} {fields : Fields} : declared id = some origin →
      layout.choice = false → layout.variants = [variant] → Keyed variant fields →
      Made declared id layout variant (.record fields)
  | variant {origin : String} {fields : Fields} : declared id = some origin →
      layout.choice = true → Keyed variant fields →
      Made declared id layout variant (.variant origin variant.name fields)
  | result {ok : Bool} {value : Value} {ty : Ty} : declared id = none →
      namesResult layout = true →
      variant = ⟨if ok then "ok" else "err", [⟨"value", ty⟩]⟩ →
      Made declared id layout variant (.result ok value)

/-- The interpreter's values of a type. -/
inductive HasType (program : Program) (declared : LayoutId → Option String) :
    Ty → Value → Prop
  | unit : HasType program declared .unit .unit
  | bool (yes : Bool) : HasType program declared .bool (.bool yes)
  | int (number : Int64) : HasType program declared .int (.int number)
  | str (text : String) : HasType program declared .str (.str text)
  | list {element : Ty} {values : List Value} :
      (∀ value ∈ values, HasType program declared element value) →
      HasType program declared (.list element) (.list values)
  | made {id : LayoutId} {layout : Layout} {index : Nat} {variant : Variant} {value : Value} :
      program.layouts[id]? = some layout → Named layout index variant →
      Made declared id layout variant value →
      (∀ field ∈ variant.fields, ∀ inner, fieldOf value field.name = some inner →
        HasType program declared field.ty inner) →
      HasType program declared (.aggregate id) value

/-- Where an aggregate is: its tag, if it has one, and a word for each field. -/
structure AggregateAt (memory : Memory) (tagged : Bool) (place index : Nat) (words : List Int64) :
    Prop where
  tag : tagged = true → memory.read place = some (index : Int)
  fields : ∀ (field : Nat) word, words[field]? = some word →
    memory.read (place + ((if tagged then 1 else 0) + field) * Runtime.WORD) = some word.toInt
  reserved : 8 ≤ place

/-- A word is a value of a type: itself, or the address of what is the value, all of it below
an address. -/
inductive Stands (program : Program) (declared : LayoutId → Option String) (memory : Memory)
    (top : Nat) : Ty → Value → Int64 → Prop
  | unit (word : Int64) : Stands program declared memory top .unit .unit word
  | bool (yes : Bool) : Stands program declared memory top .bool (.bool yes) (if yes then 1 else 0)
  | int (number : Int64) : Stands program declared memory top .int (.int number) number
  | str {place : Nat} {text : String} : Runtime.StringAt memory place text →
      place + Runtime.stringSize (Runtime.bytesOf text).length ≤ top →
      Stands program declared memory top .str (.str text) (Int64.ofNat place)
  | list {element : Ty} {place : Nat} {words : List Int64} {values : List Value} :
      Runtime.ListAt memory place (words.map Int64.toInt) →
      place + Runtime.listSize words.length ≤ top → words.length = values.length →
      (∀ (index : Nat) word value, words[index]? = some word → values[index]? = some value →
        Stands program declared memory top element value word) →
      Stands program declared memory top (.list element) (.list values) (Int64.ofNat place)
  | made {id : LayoutId} {layout : Layout} {index : Nat} {variant : Variant} {value : Value}
      {place : Nat} {words : List Int64} :
      program.layouts[id]? = some layout → Named layout index variant →
      Made declared id layout variant value →
      AggregateAt memory layout.isTagged place index words →
      place + Runtime.aggregateSize layout.isTagged words.length ≤ top →
      words.length = variant.fields.length →
      (∀ (index : Nat) field word inner, variant.fields[index]? = some field →
        words[index]? = some word → fieldOf value field.name = some inner →
        Stands program declared memory top field.ty inner word) →
      Stands program declared memory top (.aggregate id) value (Int64.ofNat place)

/-- How a compiled function of a type answers a value. -/
def Answers (program : Program) (declared : LayoutId → Option String) (memory : Memory) (ty : Ty)
    (value : Value) (answer : Option Word) : Prop :=
  match ty with
  | .unit => value = .unit ∧ answer = none
  | .bool => ∃ yes, value = .bool yes ∧ answer = some (.i32 (if yes then 1 else 0))
  | ty => ∃ word, answer = some (.i64 word) ∧
      Stands program declared memory memory.size ty value word

/-- A value of a type that is not too deep, and in which no declared type is named as a `Result`
is. -/
def Readable (program : Program) : Nat → Ty → Value → Prop
  | 0, _, _ => False
  | remaining + 1, .list element, .list values =>
      ∀ value ∈ values, Readable program remaining element value
  | remaining + 1, .aggregate id, value => ∀ layout, program.layouts[id]? = some layout →
      (namesResult layout = true → ∃ ok inner, value = .result ok inner) ∧
        ∀ name index variant, variantName layout value = some name →
          position layout name = some index → layout.variants[index]? = some variant →
          ∀ field ∈ variant.fields, ∀ inner, fieldOf value field.name = some inner →
            Readable program remaining field.ty inner
  | _ + 1, _, _ => True

end Deed.Cli.Property
