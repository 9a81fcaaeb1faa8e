import Deed.Library.Splitting

/-!
# HTTP/1.1 requests

The grammar of a request, over bytes: a request line in origin form, field lines,
and a body of the length that the fields declare.  The lines of a message are
what carriage returns cut it into, and they cut it in one way.
-/

namespace Deed.Library.Http

-- Facts about every byte are decided one byte after the other.
set_option maxRecDepth 2000

abbrev Bytes : Type := List UInt8

/-! ## Characters -/

def digit (byte : UInt8) : Bool := decide (0x30 ≤ byte) && decide (byte ≤ 0x39)

def letter (byte : UInt8) : Bool :=
  decide (0x41 ≤ byte) && decide (byte ≤ 0x5a) || decide (0x61 ≤ byte) && decide (byte ≤ 0x7a)

def hexDigit (byte : UInt8) : Bool :=
  digit byte || decide (0x41 ≤ byte) && decide (byte ≤ 0x46) ||
    decide (0x61 ≤ byte) && decide (byte ≤ 0x66)

def space : UInt8 := 0x20

def colon : UInt8 := 0x3a

def return_ : UInt8 := 0x0d

def newline : Bytes := [0x0d, 0x0a]

/-- A space or a tab, which may stand around a field's value. -/
def blank (byte : UInt8) : Bool := byte = 0x20 || byte = 0x09

/-- What a method or a field's name is made of: letters, digits and
``!#$%&'*+-.^_`|~``. -/
def tokenByte (byte : UInt8) : Bool :=
  letter byte || digit byte ||
    decide (byte ∈ ([0x21, 0x23, 0x24, 0x25, 0x26, 0x27, 0x2a, 0x2b, 0x2d, 0x2e, 0x5e, 0x5f,
      0x60, 0x7c, 0x7e] : Bytes))

/-- What a field's value starts and ends with: anything one can see. -/
def visible (byte : UInt8) : Bool :=
  decide (0x21 ≤ byte) && decide (byte ≤ 0x7e) || decide (0x80 ≤ byte)

/-- Letters, digits and `-._~`. -/
def unreserved (byte : UInt8) : Bool :=
  letter byte || digit byte || decide (byte ∈ ([0x2d, 0x2e, 0x5f, 0x7e] : Bytes))

/-- The characters ``!$&'()*+,;=``. -/
def subDelimiter (byte : UInt8) : Bool :=
  decide (byte ∈ ([0x21, 0x24, 0x26, 0x27, 0x28, 0x29, 0x2a, 0x2b, 0x2c, 0x3b, 0x3d] : Bytes))

/-- What a segment of a path is made of, apart from percent encoding. -/
def segmentByte (byte : UInt8) : Bool :=
  unreserved byte || subDelimiter byte || byte = 0x3a || byte = 0x40

def queryByte (byte : UInt8) : Bool := segmentByte byte || byte = 0x2f || byte = 0x3f

def hostByte (byte : UInt8) : Bool := unreserved byte || subDelimiter byte

/-! ## The parts of a request -/

def Token (bytes : Bytes) : Prop := bytes ≠ [] ∧ ∀ byte ∈ bytes, tokenByte byte = true

/-- Bytes that are allowed as they are, and percent encoded ones. -/
inductive Encoded (allowed : UInt8 → Bool) : Bytes → Prop where
  | nil : Encoded allowed []
  | plain {byte : UInt8} {rest : Bytes} (holds : allowed byte = true)
      (more : Encoded allowed rest) : Encoded allowed (byte :: rest)
  | percent {high low : UInt8} {rest : Bytes} (first : hexDigit high = true)
      (second : hexDigit low = true) (more : Encoded allowed rest) :
      Encoded allowed (0x25 :: high :: low :: rest)

/-- One segment or more, each after a slash. -/
def AbsolutePath (bytes : Bytes) : Prop :=
  ∃ segments : List Bytes, segments ≠ [] ∧ bytes = segments.flatMap (0x2f :: ·) ∧
    ∀ segment ∈ segments, Encoded segmentByte segment

/-- A request target that begins with a slash: a path, and a query or none. -/
def OriginForm (bytes : Bytes) : Prop :=
  ∃ path, AbsolutePath path ∧
    (bytes = path ∨ ∃ query, Encoded queryByte query ∧ bytes = path ++ 0x3f :: query)

/-- `HTTP/` and two digits with a point between them. -/
def Version (bytes : Bytes) : Prop :=
  ∃ major minor, digit major = true ∧ digit minor = true ∧
    bytes = [0x48, 0x54, 0x54, 0x50, 0x2f, major, 0x2e, minor]

/-- Nothing, or something one can see at both ends with blanks between them at most. -/
def FieldValue (bytes : Bytes) : Prop :=
  (∀ byte ∈ bytes, visible byte = true ∨ blank byte = true) ∧
    (∀ byte ∈ bytes.head?, visible byte = true) ∧ ∀ byte ∈ bytes.getLast?, visible byte = true

/-- A registered name, or an address in brackets, which is not looked into. -/
def UriHost (bytes : Bytes) : Prop :=
  Encoded hostByte bytes ∨
    ∃ address, (∀ byte ∈ address, hostByte byte = true ∨ byte = colon) ∧
      bytes = 0x5b :: (address ++ [0x5d])

/-- A host, and a port or none. -/
def HostValue (bytes : Bytes) : Prop :=
  ∃ host, UriHost host ∧
    (bytes = host ∨ ∃ port, (∀ byte ∈ port, digit byte = true) ∧ bytes = host ++ colon :: port)

/-- A field with the blanks around its value. -/
structure Field where
  name : Bytes
  before : Bytes
  value : Bytes
  after : Bytes
deriving DecidableEq

def Field.line (field : Field) : Bytes :=
  field.name ++ colon :: (field.before ++ field.value ++ field.after)

structure Field.WellFormed (field : Field) : Prop where
  name : Token field.name
  before : ∀ byte ∈ field.before, blank byte = true
  value : FieldValue field.value
  after : ∀ byte ∈ field.after, blank byte = true

def lowercase (bytes : Bytes) : Bytes :=
  bytes.map fun byte => if 0x41 ≤ byte ∧ byte ≤ 0x5a then byte + 0x20 else byte

/-- The values of the fields with a name, which is given in small letters. -/
def values (name : Bytes) (fields : List Field) : List Bytes :=
  (fields.filter fun field => lowercase field.name = name).map Field.value

/-- The bytes of a text of ASCII characters. -/
def ascii (text : String) : Bytes := text.toList.map fun character => character.toNat.toUInt8

/-- The number that some digits write. -/
def number (digits : Bytes) : Nat :=
  digits.foldl (fun value byte => 10 * value + (byte.toNat - 0x30)) 0

/-- How many bytes of body the fields declare.  A request with a transfer coding, or with
more than one length, declares no such number. -/
def declared (fields : List Field) : Option Nat :=
  if values (ascii "transfer-encoding") fields = [] then
    match values (ascii "content-length") fields with
    | [] => some 0
    | [length] => if length ≠ [] ∧ length.all digit then some (number length) else none
    | _ => none
  else none

/-- Lines, each with its end. -/
def unlines (lines : List Bytes) : Bytes := lines.flatMap (· ++ newline)

structure Request where
  method : Bytes
  target : Bytes
  version : Bytes
  fields : List Field
  body : Bytes

def Request.line (request : Request) : Bytes :=
  request.method ++ space :: (request.target ++ space :: request.version)

def Request.bytes (request : Request) : Bytes :=
  unlines (request.line :: request.fields.map Field.line) ++ newline ++ request.body

structure Request.WellFormed (request : Request) : Prop where
  method : Token request.method
  target : OriginForm request.target
  version : Version request.version
  fields : ∀ field ∈ request.fields, field.WellFormed
  hosts : ∀ host ∈ values (ascii "host") request.fields, HostValue host
  body : declared request.fields = some request.body.length

/-! ## Lines -/

/-- A line without a carriage return. -/
def Unbroken (line : Bytes) : Prop := return_ ∉ line

@[simp]
theorem unlines_nil : unlines [] = [] := rfl

@[simp]
theorem unlines_cons (line : Bytes) (lines : List Bytes) :
    unlines (line :: lines) = line ++ newline ++ unlines lines := rfl

@[simp]
theorem unlines_append (lines others : List Bytes) :
    unlines (lines ++ others) = unlines lines ++ unlines others :=
  List.flatMap_append

theorem newline_append (rest : Bytes) : newline ++ rest = return_ :: 0x0a :: rest := rfl

/-- Where a line ends in some text, lines end before it and after it. -/
theorem unlines_eq_append {lines : List Bytes} {front back : Bytes}
    (unbroken : ∀ line ∈ lines, Unbroken line)
    (same : unlines lines = front ++ newline ++ back) :
    ∃ first last, lines = first ++ last ∧ unlines first = front ++ newline ∧
      unlines last = back := by
  induction lines generalizing front with
  | nil =>
      rw [unlines_nil, List.append_assoc, newline_append] at same
      exact absurd same.symm (by simp)
  | cons line lines ih =>
      rw [unlines_cons, List.append_assoc, List.append_assoc, newline_append,
        newline_append] at same
      have lineUnbroken := unbroken line List.mem_cons_self
      rcases List.append_eq_append_iff.1 same with ⟨more, longer, rest⟩ | ⟨more, shorter, rest⟩
      · -- The text goes on past the end of the first line.
        cases more with
        | nil =>
            rw [List.nil_append] at rest
            rw [List.append_nil] at longer
            refine ⟨[line], lines, rfl, ?_, ?_⟩
            · rw [unlines_cons, unlines_nil, List.append_nil, longer]
            · exact (List.cons.inj (List.cons.inj rest).2).2
        | cons byte more =>
            rw [List.cons_append] at rest
            rcases List.cons.inj rest with ⟨rfl, tail⟩
            cases more with
            | nil =>
                rw [List.nil_append] at tail
                exact absurd (List.cons.inj tail).1 (by decide)
            | cons byte more =>
                rw [List.cons_append] at tail
                rcases List.cons.inj tail with ⟨rfl, others⟩
                rw [← newline_append, ← List.append_assoc] at others
                have othersUnbroken : ∀ line ∈ lines, Unbroken line :=
                  fun other member => unbroken other (List.mem_cons_of_mem _ member)
                rcases ih othersUnbroken others with ⟨first, last, whole, ends, starts⟩
                refine ⟨line :: first, last, ?_, ?_, starts⟩
                · rw [whole, List.cons_append]
                · rw [unlines_cons, ends, longer]
                  simp [newline, return_]
      · -- The text would end inside the first line.
        cases more with
        | nil =>
            rw [List.nil_append] at rest
            rw [List.append_nil] at shorter
            refine ⟨[line], lines, rfl, ?_, ?_⟩
            · rw [unlines_cons, unlines_nil, List.append_nil, shorter]
            · exact (List.cons.inj (List.cons.inj rest).2).2.symm
        | cons byte more =>
            rw [List.cons_append] at rest
            rw [shorter, ← (List.cons.inj rest).1] at lineUnbroken
            exact absurd (List.mem_append_right front List.mem_cons_self) lineUnbroken

/-- Lines are cut in one way. -/
theorem unlines_inj {lines others : List Bytes} (unbroken : ∀ line ∈ lines, Unbroken line)
    (unbroken' : ∀ line ∈ others, Unbroken line) (same : unlines lines = unlines others) :
    lines = others := by
  induction lines generalizing others with
  | nil =>
      cases others with
      | nil => rfl
      | cons line others =>
          rw [unlines_nil, unlines_cons, List.append_assoc, newline_append] at same
          exact absurd same (by simp)
  | cons line lines ih =>
      cases others with
      | nil =>
          rw [unlines_nil, unlines_cons, List.append_assoc, newline_append] at same
          exact absurd same.symm (by simp)
      | cons other others =>
          rw [List.forall_mem_cons] at unbroken unbroken'
          rw [unlines_cons, unlines_cons, List.append_assoc, List.append_assoc,
            newline_append, newline_append] at same
          rcases append_cons_inj unbroken.1 unbroken'.1 same with ⟨rfl, rest⟩
          rw [ih unbroken.2 unbroken'.2 (List.cons.inj rest).2]

/-! ## What the parts hold -/

theorem Encoded.mem {allowed : UInt8 → Bool} {bytes : Bytes} (encoded : Encoded allowed bytes) :
    ∀ byte ∈ bytes, allowed byte = true ∨ hexDigit byte = true ∨ byte = 0x25 := by
  induction encoded with
  | nil => exact fun byte member => absurd member List.not_mem_nil
  | plain holds more ih => exact List.forall_mem_cons.2 ⟨Or.inl holds, ih⟩
  | percent first second more ih =>
      exact List.forall_mem_cons.2 ⟨Or.inr (Or.inr rfl), List.forall_mem_cons.2
        ⟨Or.inr (Or.inl first), List.forall_mem_cons.2 ⟨Or.inr (Or.inl second), ih⟩⟩⟩

/-- A property of bytes, checked one by one. -/
theorem forall_byte {property : UInt8 → Prop} (all : ∀ code < 256, property (UInt8.ofNat code))
    (byte : UInt8) : property byte := by
  have holds := all byte.toNat byte.toNat_lt
  rwa [UInt8.ofNat_toNat] at holds

theorem visible_of_query : ∀ byte : UInt8,
    queryByte byte = true ∨ hexDigit byte = true ∨ byte = 0x25 → visible byte = true :=
  forall_byte (by decide)

theorem visible_of_host : ∀ byte : UInt8,
    (hostByte byte = true ∨ hexDigit byte = true ∨ byte = 0x25) ∨ byte = colon ∨
      byte = 0x5b ∨ byte = 0x5d ∨ digit byte = true → visible byte = true :=
  forall_byte (by decide)

theorem visible_of_token : ∀ byte : UInt8,
    tokenByte byte = true → visible byte = true ∧ byte ≠ colon :=
  forall_byte (by decide)

theorem plain_of_visible : ∀ byte : UInt8,
    visible byte = true → byte ≠ return_ ∧ blank byte = false :=
  forall_byte (by decide)

theorem plain_of_blank : ∀ byte : UInt8, blank byte = true → byte ≠ return_ :=
  forall_byte (by decide)

/-- A target holds only what one can see, and begins with a slash. -/
theorem OriginForm.visible {bytes : Bytes} (origin : OriginForm bytes) :
    (∀ byte ∈ bytes, Http.visible byte = true) ∧ bytes.head? = some 0x2f := by
  rcases origin with ⟨path, ⟨segments, some_, rfl, encoded⟩, shape⟩
  have inPath : ∀ byte ∈ segments.flatMap (0x2f :: ·), Http.visible byte = true := by
    intro byte member
    rcases List.mem_flatMap.1 member with ⟨segment, held, inside⟩
    rcases List.mem_cons.1 inside with rfl | inside
    · decide
    · apply visible_of_query
      rcases (encoded segment held).mem byte inside with plain | other
      · exact Or.inl (by rw [queryByte, plain]; rfl)
      · exact Or.inr other
  have starts : (segments.flatMap (0x2f :: ·)).head? = some 0x2f := by
    cases segments with
    | nil => exact absurd rfl some_
    | cons segment rest => rfl
  rcases shape with rfl | ⟨query, encodedQuery, rfl⟩
  · exact ⟨inPath, starts⟩
  · refine ⟨?_, ?_⟩
    · intro byte member
      rcases List.mem_append.1 member with front | back
      · exact inPath byte front
      · rcases List.mem_cons.1 back with rfl | back
        · decide
        · exact visible_of_query _ (encodedQuery.mem byte back)
    · rw [List.head?_append, starts]
      rfl

theorem HostValue.visible {bytes : Bytes} (host : HostValue bytes) :
    ∀ byte ∈ bytes, Http.visible byte = true := by
  rcases host with ⟨name, uri, shape⟩
  have inName : ∀ byte ∈ name, Http.visible byte = true := by
    rcases uri with encoded | ⟨address, plain, rfl⟩
    · intro byte member
      exact visible_of_host _ (Or.inl (encoded.mem byte member))
    · intro byte member
      apply visible_of_host
      rcases List.mem_cons.1 member with rfl | member
      · exact Or.inr (Or.inr (Or.inl rfl))
      · rcases List.mem_append.1 member with inside | last
        · rcases plain byte inside with host | colon
          · exact Or.inl (Or.inl host)
          · exact Or.inr (Or.inl colon)
        · rw [List.mem_singleton.1 last]
          exact Or.inr (Or.inr (Or.inr (Or.inl rfl)))
  rcases shape with rfl | ⟨port, digits, rfl⟩
  · exact inName
  · intro byte member
    rcases List.mem_append.1 member with front | back
    · exact inName byte front
    · rcases List.mem_cons.1 back with rfl | back
      · decide
      · exact visible_of_host _ (Or.inr (Or.inr (Or.inr (Or.inr (digits byte back)))))

/-- What one can see all through is a value. -/
theorem FieldValue.of_visible {bytes : Bytes} (seen : ∀ byte ∈ bytes, visible byte = true) :
    FieldValue bytes := by
  refine ⟨fun byte member => Or.inl (seen byte member), ?_, ?_⟩
  · exact fun byte member => seen byte (List.mem_of_mem_head? member)
  · exact fun byte member => seen byte (List.mem_of_mem_getLast? member)

theorem unbroken_of_visible {bytes : Bytes} (seen : ∀ byte ∈ bytes, visible byte = true) :
    Unbroken bytes :=
  fun member => (plain_of_visible _ (seen _ member)).1 rfl

theorem Version.unbroken {bytes : Bytes} (version : Version bytes) : Unbroken bytes := by
  rcases version with ⟨major, minor, first, second, rfl⟩
  apply unbroken_of_visible
  have seen : ∀ byte : UInt8, digit byte = true → visible byte = true :=
    forall_byte (by decide)
  simp only [List.forall_mem_cons]
  exact ⟨by decide, by decide, by decide, by decide, by decide, seen _ first, by decide,
    seen _ second, fun _ member => absurd member List.not_mem_nil⟩

namespace Field

variable {field other : Field}

theorem WellFormed.unbroken (wellFormed : field.WellFormed) : Unbroken field.line := by
  intro member
  rw [line, List.mem_append, List.mem_cons, List.mem_append, List.mem_append] at member
  rcases member with inName | inColon | (inBefore | inValue) | inAfter
  · have seen := (visible_of_token _ (wellFormed.name.2 _ inName)).1
    exact (plain_of_visible _ seen).1 rfl
  · exact absurd inColon (by decide)
  · exact plain_of_blank _ (wellFormed.before _ inBefore) rfl
  · rcases wellFormed.value.1 _ inValue with seen | between
    · exact (plain_of_visible _ seen).1 rfl
    · exact plain_of_blank _ between rfl
  · exact plain_of_blank _ (wellFormed.after _ inAfter) rfl

theorem trim_blank {before value after : Bytes} (front : ∀ byte ∈ before, blank byte = true)
    (holds : FieldValue value) (back : ∀ byte ∈ after, blank byte = true) :
    trim blank (before ++ value ++ after) = value := by
  have dropFront : (before ++ value ++ after).dropWhile blank =
      (value ++ after).dropWhile blank := by
    rw [List.append_assoc, List.dropWhile_append_of_pos front]
  rw [trim, dropFront]
  cases value with
  | nil =>
      have all : (([] : Bytes) ++ after).dropWhile blank = [] :=
        List.dropWhile_eq_nil_iff.2 fun byte member => back byte member
      rw [all]
      rfl
  | cons first rest =>
      have seen := holds.2.1 first rfl
      rw [List.cons_append, List.dropWhile_cons_of_neg (by rw [(plain_of_visible _ seen).2]; decide),
        ← List.cons_append, List.rdropWhile, List.reverse_append,
        List.dropWhile_append_of_pos (by simpa using back), ← List.rdropWhile,
        List.rdropWhile_eq_self_iff]
      intro some_
      have last := holds.2.2 ((first :: rest).getLast some_) (List.getLast?_eq_some_getLast some_)
      rw [(plain_of_visible _ last).2]
      decide

/-- A line has one name and one value. -/
theorem line_inj (wellFormed : field.WellFormed) (wellFormed' : other.WellFormed)
    (same : field.line = other.line) : field.name = other.name ∧ field.value = other.value := by
  have plain : ∀ {some_ : Field}, some_.WellFormed → colon ∉ some_.name :=
    fun holds member => (visible_of_token _ (holds.name.2 _ member)).2 rfl
  rcases append_cons_inj (plain wellFormed) (plain wellFormed') same with ⟨names, rests⟩
  refine ⟨names, ?_⟩
  rw [← trim_blank wellFormed.before wellFormed.value wellFormed.after, rests,
    trim_blank wellFormed'.before wellFormed'.value wellFormed'.after]

end Field

@[simp]
theorem values_nil {name : Bytes} : values name [] = [] := rfl

theorem values_cons {name : Bytes} {field : Field} {fields : List Field} :
    values name (field :: fields) =
      if lowercase field.name = name then field.value :: values name fields
      else values name fields := by
  rw [values, List.filter_cons]
  split
  · next same => rw [if_pos (of_decide_eq_true same), List.map_cons, values]
  · next other => rw [if_neg fun same => other (decide_eq_true same), values]

@[simp]
theorem values_append {name : Bytes} {fields others : List Field} :
    values name (fields ++ others) = values name fields ++ values name others := by
  rw [values, List.filter_append, List.map_append, values, values]

/-- Fields with the same lines say the same. -/
theorem map_line_inj {fields others : List Field}
    (wellFormed : ∀ field ∈ fields, field.WellFormed)
    (wellFormed' : ∀ field ∈ others, field.WellFormed)
    (same : fields.map Field.line = others.map Field.line) :
    fields.map (fun field => (field.name, field.value)) =
      others.map fun field => (field.name, field.value) := by
  induction fields generalizing others with
  | nil =>
      cases others with
      | nil => rfl
      | cons other others => exact absurd same.symm (List.cons_ne_nil _ _)
  | cons field fields ih =>
      cases others with
      | nil => exact absurd same (List.cons_ne_nil _ _)
      | cons other others =>
          rw [List.forall_mem_cons] at wellFormed wellFormed'
          rcases List.cons.inj same with ⟨first, rest⟩
          rcases Field.line_inj wellFormed.1 wellFormed'.1 first with ⟨names, contents⟩
          rw [List.map_cons, List.map_cons, ih wellFormed.2 wellFormed'.2 rest, names, contents]

/-- Fields with the same names and values have the same values under each name. -/
theorem values_congr {name : Bytes} {fields others : List Field}
    (same : fields.map (fun field => (field.name, field.value)) =
      others.map fun field => (field.name, field.value)) :
    values name fields = values name others := by
  induction fields generalizing others with
  | nil =>
      cases others with
      | nil => rfl
      | cons field others => exact absurd same.symm (List.cons_ne_nil _ _)
  | cons field fields ih =>
      cases others with
      | nil => exact absurd same (List.cons_ne_nil _ _)
      | cons other others =>
          rw [List.map_cons, List.map_cons] at same
          rcases List.cons.inj same with ⟨first, rest⟩
          rcases Prod.mk.inj first with ⟨names, contents⟩
          rw [values_cons, values_cons, names, contents, ih rest]

theorem declared_congr {fields others : List Field}
    (same : fields.map (fun field => (field.name, field.value)) =
      others.map fun field => (field.name, field.value)) :
    declared fields = declared others := by
  rw [declared, declared, values_congr same, values_congr same]

end Deed.Library.Http
