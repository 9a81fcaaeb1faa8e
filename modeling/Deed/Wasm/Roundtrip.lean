import Deed.Wasm.Decode

/-!
# Reading a module back

The sections of the binary format, and that a module whose sizes fit their
length fields is read back from its bytes: its functions without their markers,
its locals out of their runs and its names in the order of their indices.
-/

namespace Deed.Wasm

open Deed.Library

variable {α β : Type}

/-! ## Vectors, sizes and names -/

def readVector (reader : Reader α) : Reader (List α) := do
  let count ← readU32
  reader.times count.toNat

def readSized (reader : Reader α) : Reader α := do
  let size ← readU32
  reader.within size.toNat

/-- The text of some bytes, when they are UTF-8. -/
def nameOf (bytes : List UInt8) : Option String := String.fromUTF8? ⟨bytes.toArray⟩

def readName : Reader String := do
  let size ← readU32
  let bytes ← Reader.bytes size.toNat
  StateT.lift (nameOf bytes)

theorem nameOf_bytes (name : String) : nameOf name.toUTF8.data.toList = some name := by
  have whole : (⟨name.toUTF8.data.toList.toArray⟩ : ByteArray) = name.toUTF8 := by
    rw [Array.toArray_toList]
  rw [nameOf, whole]
  exact dif_pos name.isValidUTF8

theorem toNat_count {count : Nat} (fits : count < 2 ^ 32) :
    (UInt32.ofNat count).toNat = count := by
  rw [UInt32.toNat_ofNat']
  exact Nat.mod_eq_of_lt fits

theorem reads_vector {write : β → List UInt8} {reader : Reader α} {wrap : β → α}
    {elements : List β} (fits : elements.length < 2 ^ 32)
    (each : ∀ element ∈ elements, Reads reader (write element) (wrap element)) :
    Reads (readVector reader) (writeVector write elements) (elements.map wrap) := by
  apply (reads_u32 _).bind
  rw [toNat_count fits]
  exact Reads.times each

/-- A vector whose elements are taken back as they were. -/
theorem reads_vector_self {write : α → List UInt8} {reader : Reader α}
    {elements : List α} (fits : elements.length < 2 ^ 32)
    (each : ∀ element ∈ elements, Reads reader (write element) element) :
    Reads (readVector reader) (writeVector write elements) elements := by
  have whole : Reads (readVector reader) (writeVector write elements)
      (elements.map id) := reads_vector fits each
  rwa [List.map_id] at whole

theorem reads_sized {reader : Reader α} {content : List UInt8} {value : α}
    (fits : content.length < 2 ^ 32) (reads : Reads reader content value) :
    Reads (readSized reader) (writeSized content) value := by
  apply (reads_u32 _).bind
  rw [toNat_count fits]
  exact reads.within

/-- A name whose length is one the format can write. -/
def NameFits (name : String) : Prop := name.toUTF8.data.toList.length < 2 ^ 32

instance (name : String) : Decidable (NameFits name) :=
  inferInstanceAs (Decidable (_ < _))

theorem reads_name {name : String} (fits : NameFits name) :
    Reads readName (writeName name) name := by
  apply (reads_u32 _).bind
  rw [toNat_count fits, ← List.append_nil name.toUTF8.data.toList]
  apply Reads.bind
  · rw [List.append_nil]
    exact Reads.bytes _
  · intro rest
    rw [nameOf_bytes]
    rfl

theorem reads_val_type (ty : ValType) : Reads readValType [ty.byte] ty := by
  apply Reads.decoded
  cases ty <;> decide

/-! ## Functions -/

def readFuncType : Reader FuncType := do
  Reader.expect 0x60
  let params ← readVector readValType
  return { params, results := ← readVector readValType }

def readImport : Reader Import := do
  let module ← readName
  let name ← readName
  Reader.expect 0x00
  return { module, name, typeIndex := ← readU32 }

def readRun : Reader (UInt32 × ValType) := do
  let count ← readU32
  return (count, ← readValType)

/-- The locals that some runs stand for. -/
def expandLocals (runs : List (UInt32 × ValType)) : List ValType :=
  runs.flatMap fun run => List.replicate run.1.toNat run.2

/-- A whole body; its bytes bound how many instructions there can be. -/
def readExpression : Reader (List Ins) := fun bytes =>
  (readClosed (readSequence bytes.length)).run bytes

def readBody : Reader (List ValType × List Ins) := do
  let runs ← readVector readRun
  return (expandLocals runs, ← readExpression)

theorem reads_func_type {ty : FuncType} (params : ty.params.length < 2 ^ 32)
    (results : ty.results.length < 2 ^ 32) : Reads readFuncType ty.write ty := by
  have first := reads_vector_self params fun param _ => reads_val_type param
  have second := reads_vector_self results fun result _ => reads_val_type result
  refine (Reads.expect 0x60).bind (first.bind ?_)
  exact second.map (FuncType.mk ty.params)

theorem reads_import {import_ : Import} (module : NameFits import_.module)
    (name : NameFits import_.name) : Reads readImport import_.write import_ := by
  refine (reads_name module).bind ((reads_name name).bind ((Reads.expect 0x00).bind ?_))
  exact (reads_u32 import_.typeIndex).map (Import.mk import_.module import_.name)

theorem reads_run (run : UInt32 × ValType) :
    Reads readRun (writeU32 run.1 ++ [run.2.byte]) run :=
  (reads_u32 run.1).bind ((reads_val_type run.2).map (Prod.mk run.1))

theorem expandLocals_append (left right : List (UInt32 × ValType)) :
    expandLocals (left ++ right) = expandLocals left ++ expandLocals right :=
  List.flatMap_append

theorem expandLocals_single (count : UInt32) (ty : ValType) :
    expandLocals [(count, ty)] = List.replicate count.toNat ty := by
  rw [expandLocals, List.flatMap_singleton]

/-- One more local is one more local of the runs, while the counts have room. -/
theorem expandLocals_pushLocal (runs : List (UInt32 × ValType)) (ty : ValType)
    (room : (expandLocals runs).length + 1 < 2 ^ 32) :
    expandLocals (pushLocal runs ty) = expandLocals runs ++ [ty] := by
  have fresh : expandLocals (runs ++ [(1, ty)]) = expandLocals runs ++ [ty] := by
    rw [expandLocals_append, expandLocals_single]
    rfl
  rw [pushLocal]
  split
  · next count seen last =>
      split
      · next same =>
          have whole : runs = runs.dropLast ++ [(count, seen)] :=
            (List.dropLast_append_getLast? (count, seen) last).symm
          have counted : count.toNat + 1 < 2 ^ 32 := by
            rw [whole, expandLocals_append, expandLocals_single, List.length_append,
              List.length_replicate] at room
            omega
          have next_ : (count + 1).toNat = count.toNat + 1 := by
            rw [UInt32.toNat_add]
            exact Nat.mod_eq_of_lt counted
          rw [expandLocals_append, expandLocals_single, next_, List.replicate_succ',
            ← List.append_assoc, ← expandLocals_single, ← expandLocals_append, ← whole,
            same]
      · exact fresh
  · exact fresh

/-- The runs of the locals stand for the locals. -/
theorem expandLocals_compressLocals {locals : List ValType}
    (fits : locals.length < 2 ^ 32) :
    expandLocals (compressLocals locals) = locals := by
  have from_ : ∀ (rest : List ValType) (runs : List (UInt32 × ValType)),
      (expandLocals runs).length + rest.length < 2 ^ 32 →
      expandLocals (rest.foldl pushLocal runs) = expandLocals runs ++ rest := by
    intro rest
    induction rest with
    | nil =>
        intro runs _
        rw [List.append_nil]
        rfl
    | cons ty rest ih =>
        intro runs room
        rw [List.length_cons] at room
        have pushed := expandLocals_pushLocal runs ty (by omega)
        rw [List.foldl_cons, ih, pushed, List.append_assoc]
        · rfl
        · rw [pushed, List.length_append, List.length_singleton]
          omega
  exact from_ locals [] (by rw [expandLocals]; simpa using fits)

/-- There are no more runs than locals. -/
theorem length_compressLocals_le (locals : List ValType) :
    (compressLocals locals).length ≤ locals.length := by
  have from_ : ∀ (rest : List ValType) (runs : List (UInt32 × ValType)),
      (rest.foldl pushLocal runs).length ≤ runs.length + rest.length := by
    intro rest
    induction rest with
    | nil =>
        intro runs
        exact Nat.le_refl _
    | cons ty rest ih =>
        intro runs
        have pushed : (pushLocal runs ty).length ≤ runs.length + 1 := by
          rw [pushLocal]
          split
          · split
            · rw [List.length_append, List.length_dropLast, List.length_singleton]
              omega
            · rw [List.length_append, List.length_singleton]
          · rw [List.length_append, List.length_singleton]
        have others := ih (pushLocal runs ty)
        rw [List.foldl_cons, List.length_cons]
        omega
  have whole := from_ locals []
  rw [List.length_nil, Nat.zero_add] at whole
  exact whole

theorem reads_expression (body : List Ins) :
    Reads readExpression (Ins.writeAll body ++ [0x0b]) (Ins.eraseAll body) := by
  intro rest
  have short : (Ins.writeAll body).length <
      ((Ins.writeAll body ++ [0x0b]) ++ rest).length := by
    rw [List.length_append, List.length_append, List.length_singleton]
    omega
  exact reads_closed (reads_sequence body 0x0b _ (Or.inl rfl) short) rest

theorem reads_body {func : Func} (fits : func.locals.length < 2 ^ 32) :
    Reads readBody func.writeBody (func.locals, Ins.eraseAll func.body) := by
  have runs := reads_vector_self
    (Nat.lt_of_le_of_lt (length_compressLocals_le func.locals) fits)
    fun run _ => reads_run run
  have body := (reads_expression func.body).map
    (Prod.mk (expandLocals (compressLocals func.locals)))
  rw [expandLocals_compressLocals fits] at body
  refine runs.bind ?_
  rw [expandLocals_compressLocals fits]
  exact body

/-! ## The other entries -/

/-- A constant offset: `i32.const`, the number, `end`. -/
def readOffset : Reader Int32 := do
  Reader.expect 0x41
  let offset ← readI32
  Reader.expect 0x0b
  return offset

/-- The one table: function references, as many at least as at most. -/
def readTable : Reader UInt32 := do
  Reader.expect 0x01
  Reader.expect 0x70
  Reader.expect 0x01
  let least ← readU32
  let most ← readU32
  if most = least then return least else failure

/-- The one memory, without a maximum. -/
def readMemory : Reader UInt32 := do
  Reader.expect 0x01
  Reader.expect 0x00
  readU32

/-- A name, the kind of what is exported, and its index. -/
def readExport : Reader (String × UInt8 × UInt32) := do
  let name ← readName
  let kind ← Reader.byte
  return (name, kind, ← readU32)

/-- The one segment that fills the table from its start. -/
def readElements : Reader (List UInt32) := do
  Reader.expect 0x01
  Reader.expect 0x00
  let offset ← readOffset
  if offset = 0 then readVector readU32 else failure

/-- Bytes with their number in front. -/
def readBytes : Reader (List UInt8) := do
  let size ← readU32
  Reader.bytes size.toNat

def readDataSegment : Reader (UInt32 × List UInt8) := do
  Reader.expect 0x00
  let offset ← readOffset
  return (offset.toUInt32, ← readBytes)

def readFunctionName : Reader (UInt32 × String) := do
  let index ← readU32
  return (index, ← readName)

/-- The custom section of names, with its subsection of function names. -/
def readNames : Reader (List (UInt32 × String)) := do
  let custom ← readName
  if custom = "name" then do
    Reader.expect 0x01
    readSized (readVector readFunctionName)
  else failure

/-- Every export of a module: its functions, and then its memory. -/
def Module.allExports (module : Module) : List (String × UInt8 × UInt32) :=
  module.exports.map (fun exported => (exported.1, 0x00, exported.2)) ++
    module.exportedMemory.toList.map (fun name => (name, 0x02, 0))

/-- The functions of an export section, and the memory where one comes last. -/
def splitExports : List (String × UInt8 × UInt32) →
    Option (List (String × UInt32) × Option String)
  | [] => some ([], none)
  | (name, kind, index) :: rest =>
      if kind = 0x00 then
        (splitExports rest).map fun split_ => ((name, index) :: split_.1, split_.2)
      else if kind = 0x02 ∧ index = 0 ∧ rest.isEmpty then some ([], some name)
      else none

theorem writeU32_zero : writeU32 0 = [0x00] := by
  rw [writeU32]
  rfl

theorem writeU32_one : writeU32 1 = [0x01] := by
  rw [writeU32]
  rfl

theorem reads_offset (offset : Int32) :
    Reads readOffset (0x41 :: (writeI32 offset ++ [0x0b])) offset :=
  (Reads.expect 0x41).bind ((reads_i32 offset).bind
    ((Reads.expect 0x0b).bind (Reads.pure offset)))

theorem reads_table (module : Module) :
    Reads readTable module.tableSection (UInt32.ofNat module.table.length) := by
  rw [Module.tableSection, writeU32_one]
  refine (Reads.expect 0x01).bind ((Reads.expect 0x70).bind ((Reads.expect 0x01).bind
    ((reads_u32 _).bind ?_)))
  rw [← List.append_nil (writeU32 _)]
  exact (reads_u32 _).bind (Reads.met rfl (Reads.pure _))

theorem reads_memory (pages : UInt32) :
    Reads readMemory (Module.memorySection pages) pages := by
  rw [Module.memorySection, writeU32_one]
  exact (Reads.expect 0x01).bind ((Reads.expect 0x00).bind (reads_u32 pages))

theorem reads_elements {module : Module} (fits : module.table.length < 2 ^ 32) :
    Reads readElements module.elementSection module.table := by
  have functions := reads_vector_self fits fun index _ => reads_u32 index
  have offset := (reads_offset 0).bind (f := fun offset =>
    if offset = 0 then readVector readU32 else failure) (Reads.met rfl functions)
  rw [Module.elementSection, writeU32_one, writeU32_zero]
  refine (Reads.expect 0x01).bind ((Reads.expect 0x00).bind ?_)
  simpa using offset

theorem reads_bytes {content : List UInt8} (fits : content.length < 2 ^ 32) :
    Reads readBytes (writeSized content) content := by
  apply (reads_u32 _).bind
  rw [toNat_count fits]
  exact Reads.bytes content

theorem reads_data_segment {segment : UInt32 × List UInt8}
    (fits : segment.2.length < 2 ^ 32) :
    Reads readDataSegment (writeDataSegment segment) segment := by
  have bytes := (reads_bytes fits).map (Prod.mk segment.1.toInt32.toUInt32)
  have whole := (reads_offset segment.1.toInt32).bind (f := fun offset => do
    return (offset.toUInt32, ← readBytes)) bytes
  rw [writeDataSegment, writeU32_zero]
  refine (Reads.expect 0x00).bind ?_
  simpa using whole

theorem reads_export {exported : String × UInt8 × UInt32} (fits : NameFits exported.1) :
    Reads readExport (writeName exported.1 ++ (exported.2.1 :: writeU32 exported.2.2))
      exported :=
  (reads_name fits).bind ((Reads.byte exported.2.1).bind
    ((reads_u32 exported.2.2).map fun index => (exported.1, exported.2.1, index)))

theorem reads_function_name {named : UInt32 × String} (fits : NameFits named.2) :
    Reads readFunctionName (writeFunctionName named) named :=
  (reads_u32 named.1).bind ((reads_name fits).map (Prod.mk named.1))

theorem splitExports_allExports (module : Module) :
    splitExports module.allExports = some (module.exports, module.exportedMemory) := by
  rw [Module.allExports]
  induction module.exports with
  | nil =>
      cases module.exportedMemory with
      | none => rfl
      | some name => rfl
  | cons exported rest ih =>
      rw [List.map_cons, List.cons_append, splitExports, if_pos rfl, ih]
      rfl

/-! ## Sections -/

/-- A section that may be left out. -/
def readSection (id : UInt8) (reader : Reader α) : Reader (Option α) :=
  Reader.tagged id (readSized reader)

/-- The bytes of a section that holds `value`, or none when it is left out. -/
inductive SectionOf (id : UInt8) (reader : Reader α) : List UInt8 → Option α → Prop where
  | absent : SectionOf id reader [] none
  | present {content : List UInt8} {value : α} (fits : content.length < 2 ^ 32)
      (reads : Reads reader content value) :
      SectionOf id reader (writeSection id content) (some value)

/-- What follows is nothing, or a section with one of these ids. -/
def Opens (ids : List UInt8) (bytes : List UInt8) : Prop :=
  ∀ id, bytes.head? = some id → id ∈ ids

theorem opens_nil : Opens [] [] := by
  intro id first
  exact absurd first.symm (Option.some_ne_none id)

namespace SectionOf

variable {id : UInt8} {reader : Reader α} {part rest : List UInt8} {value : Option α}
  {ids : List UInt8}

theorem opens (section_ : SectionOf id reader part value) (follows : Opens ids rest) :
    Opens (id :: ids) (part ++ rest) := by
  intro first starts
  cases section_ with
  | absent => exact List.mem_cons_of_mem _ (follows first starts)
  | present fits reads =>
      have same : id = first := Option.some.inj starts
      rw [same]
      exact List.mem_cons_self

/-- A section is taken off the front, and one that was left out is not seen. -/
theorem run (section_ : SectionOf id reader part value) (follows : Opens ids rest)
    (fresh : id ∉ ids) :
    (readSection id reader).run (part ++ rest) = some (value, rest) := by
  cases section_ with
  | absent =>
      rw [List.nil_append]
      show (Reader.tagged id (readSized reader)) rest = _
      cases rest with
      | nil => rfl
      | cons first others =>
          have other : first ≠ id := by
            rintro rfl
            exact fresh (follows first rfl)
          rw [Reader.tagged, if_neg other]
  | present fits reads => exact (reads_sized fits reads).tagged rest

end SectionOf

/-- A section that is left out when its list is empty. -/
theorem section_of_list {id : UInt8} {reader : Reader (List α)} {elements : List β}
    {values : List α} {content : List UInt8} (fits : content.length < 2 ^ 32)
    (reads : Reads reader content values) :
    SectionOf id reader (if elements.isEmpty then [] else writeSection id content)
      (if elements.isEmpty then none else some values) := by
  by_cases empty : elements.isEmpty
  · rw [if_pos empty, if_pos empty]
    exact .absent
  · rw [if_neg empty, if_neg empty]
    exact .present fits reads

/-! ## Modules -/

/-- What the sections of a module hold. -/
structure Sections where
  types : Option (List FuncType)
  imports : Option (List Import)
  functions : Option (List UInt32)
  table : Option UInt32
  memory : Option UInt32
  exports : Option (List (String × UInt8 × UInt32))
  elements : Option (List UInt32)
  code : Option (List (List ValType × List Ins))
  data : Option (List (UInt32 × List UInt8))
  names : Option (List (UInt32 × String))

/-- The sections in the order the specification lays them out. -/
def readSections : Reader Sections := do
  let found ← Reader.bytes header.length
  if found = header then do
    let types ← readSection 1 (readVector readFuncType)
    let imports ← readSection 2 (readVector readImport)
    let functions ← readSection 3 (readVector readU32)
    let table ← readSection 4 readTable
    let memory ← readSection 5 readMemory
    let exports ← readSection 7 (readVector readExport)
    let elements ← readSection 9 readElements
    let code ← readSection 10 (readVector (readSized readBody))
    let data ← readSection 11 (readVector readDataSegment)
    let names ← readSection 0 readNames
    return { types, imports, functions, table, memory, exports, elements, code, data,
             names }
  else failure

/-- The module of some sections: the functions have as many types as bodies, and the
table is as big as what fills it. -/
def Sections.toModule (sections : Sections) : Option Module := do
  let functions := sections.functions.getD []
  let code := sections.code.getD []
  let table := sections.elements.getD []
  let exports ← splitExports (sections.exports.getD [])
  if functions.length = code.length ∧
      (sections.table.getD 0).toNat = table.length then
    return {
      types := sections.types.getD []
      imports := sections.imports.getD []
      funcs := List.zipWith (fun typeIndex body =>
        { typeIndex, locals := body.1, body := body.2 }) functions code
      exports := exports.1
      memoryPages := sections.memory
      exportedMemory := exports.2
      data := sections.data.getD []
      table
      names := sections.names.getD [] }
  else failure

/-- The module that some bytes are. -/
def decode (bytes : List UInt8) : Option Module :=
  match readSections.run bytes with
  | some (sections, []) => sections.toModule
  | _ => none

/-- A module as the bytes hold it: bodies without markers, names in the order of their
indices. -/
def Module.normalised (module : Module) : Module :=
  { module with
    funcs := module.funcs.map fun func => { func with body := Ins.eraseAll func.body }
    names := module.sortedNames }

/-- Every length that the encoder writes is one that its field can hold. -/
structure Module.Fits (module : Module) : Prop where
  types : module.types.length < 2 ^ 32
  signatures : ∀ ty ∈ module.types,
    ty.params.length < 2 ^ 32 ∧ ty.results.length < 2 ^ 32
  typeSection : module.typeSection.length < 2 ^ 32
  imports : module.imports.length < 2 ^ 32
  importNames : ∀ import_ ∈ module.imports,
    NameFits import_.module ∧ NameFits import_.name
  importSection : module.importSection.length < 2 ^ 32
  funcs : module.funcs.length < 2 ^ 32
  functionSection : module.functionSection.length < 2 ^ 32
  table : module.table.length < 2 ^ 32
  exports : module.allExports.length < 2 ^ 32
  exportNames : ∀ exported ∈ module.allExports, NameFits exported.1
  exportSection : module.exportSection.length < 2 ^ 32
  elementSection : module.elementSection.length < 2 ^ 32
  locals : ∀ func ∈ module.funcs, func.locals.length < 2 ^ 32
  bodies : ∀ func ∈ module.funcs, func.writeBody.length < 2 ^ 32
  codeSection : module.codeSection.length < 2 ^ 32
  data : module.data.length < 2 ^ 32
  segments : ∀ segment ∈ module.data, segment.2.length < 2 ^ 32
  dataSection : module.dataSection.length < 2 ^ 32
  names : module.names.length < 2 ^ 32
  functionNames : ∀ named ∈ module.names, NameFits named.2
  functionNameMap :
    (writeVector writeFunctionName module.sortedNames).length < 2 ^ 32
  nameSection : module.nameSection.length < 2 ^ 32

namespace Module

/-- What the sections of an encoded module hold. -/
def sections (module : Module) : Sections where
  types := if module.types.isEmpty then none else some module.types
  imports := if module.imports.isEmpty then none else some module.imports
  functions := if module.funcs.isEmpty then none
    else some (module.funcs.map Func.typeIndex)
  table := if module.table.isEmpty then none
    else some (UInt32.ofNat module.table.length)
  memory := module.memoryPages
  exports := if module.exports.isEmpty ∧ module.exportedMemory.isNone then none
    else some module.allExports
  elements := if module.table.isEmpty then none else some module.table
  code := if module.funcs.isEmpty then none
    else some (module.funcs.map fun func => (func.locals, Ins.eraseAll func.body))
  data := if module.data.isEmpty then none else some module.data
  names := if module.names.isEmpty then none else some module.sortedNames

/-- A list is recovered from the section that is left out when it is empty. -/
theorem getD_section {elements : List β} {values : List α}
    (empty : elements.isEmpty → values = []) :
    (if elements.isEmpty then none else some values).getD [] = values := by
  by_cases none_ : elements.isEmpty
  · rw [if_pos none_, empty none_]
    rfl
  · rw [if_neg none_]
    rfl

theorem getD_exports (module : Module) :
    module.sections.exports.getD [] = module.allExports := by
  by_cases nothing : module.exports.isEmpty ∧ module.exportedMemory.isNone
  · have functions : module.exports = [] := List.isEmpty_iff.1 nothing.1
    have memory : module.exportedMemory = none := Option.isNone_iff_eq_none.1 nothing.2
    rw [sections, if_pos nothing, allExports, functions, memory]
    rfl
  · rw [sections, if_neg nothing]
    rfl

theorem toNat_table {module : Module} (fits : module.table.length < 2 ^ 32) :
    (module.sections.table.getD 0).toNat = module.table.length := by
  by_cases empty : module.table.isEmpty
  · rw [sections, if_pos empty, List.isEmpty_iff.1 empty]
    rfl
  · rw [sections, if_neg empty]
    exact toNat_count fits

theorem exportSection_eq (module : Module) :
    module.exportSection = writeVector (fun exported : String × UInt8 × UInt32 =>
      writeName exported.1 ++ (exported.2.1 :: writeU32 exported.2.2))
      module.allExports := by
  rw [exportSection, writeVector, allExports, List.length_append, List.length_map,
    List.length_map, List.flatMap_append, List.flatMap_map, List.flatMap_map]
  rfl

/-- The sections of a module make up the module. -/
theorem toModule_sections {module : Module} (fits : module.Fits) :
    module.sections.toModule = some module.normalised := by
  have types : module.sections.types.getD [] = module.types :=
    getD_section List.isEmpty_iff.1
  have imports : module.sections.imports.getD [] = module.imports :=
    getD_section List.isEmpty_iff.1
  have functions : module.sections.functions.getD [] =
      module.funcs.map Func.typeIndex := by
    apply getD_section
    intro empty
    rw [List.isEmpty_iff.1 empty, List.map_nil]
  have elements : module.sections.elements.getD [] = module.table :=
    getD_section List.isEmpty_iff.1
  have code : module.sections.code.getD [] =
      module.funcs.map fun func => (func.locals, Ins.eraseAll func.body) := by
    apply getD_section
    intro empty
    rw [List.isEmpty_iff.1 empty, List.map_nil]
  have data : module.sections.data.getD [] = module.data :=
    getD_section List.isEmpty_iff.1
  have names : module.sections.names.getD [] = module.sortedNames := by
    apply getD_section
    intro empty
    rw [sortedNames, List.isEmpty_iff.1 empty, List.mergeSort_nil]
  rw [Sections.toModule, getD_exports, splitExports_allExports, types, imports,
    functions, elements, code, data, names, toNat_table fits.table]
  rw [List.length_map, List.length_map]
  show (if _ then _ else _) = _
  rw [if_pos ⟨rfl, rfl⟩, List.zipWith_map, List.zipWith_self]
  rfl

/-- The section of exports is left out when there is nothing to export. -/
theorem section_of_exports {module : Module} (fits : module.Fits) :
    SectionOf 7 (readVector readExport)
      (if module.exports.isEmpty ∧ module.exportedMemory.isNone then []
        else writeSection 7 module.exportSection) module.sections.exports := by
  have reads := reads_vector_self fits.exports
    fun exported member => reads_export (fits.exportNames exported member)
  by_cases nothing : module.exports.isEmpty ∧ module.exportedMemory.isNone
  · rw [sections, if_pos nothing, if_pos nothing]
    exact .absent
  · rw [sections, if_neg nothing, if_neg nothing]
    exact .present fits.exportSection (by rwa [exportSection_eq])

theorem length_memorySection_lt (pages : UInt32) :
    (memorySection pages).length < 2 ^ 32 := by
  have short : (writeU32 pages).length ≤ 5 := by
    rw [writeU32_eq]
    exact Leb128.length_unsigned_le (by decide)
      (Nat.lt_of_lt_of_le pages.toNat_lt (by decide))
  simp only [memorySection, writeU32_one, List.length_append, List.length_cons,
    List.length_nil]
  omega

theorem length_tableSection_lt (module : Module) :
    module.tableSection.length < 2 ^ 32 := by
  have short : (writeU32 (UInt32.ofNat module.table.length)).length ≤ 5 := by
    rw [writeU32_eq]
    exact Leb128.length_unsigned_le (by decide)
      (Nat.lt_of_lt_of_le (UInt32.toNat_lt _) (by decide))
  simp only [tableSection, writeU32_one, List.length_append, List.length_cons,
    List.length_nil]
  omega

theorem section_of_memory (module : Module) :
    SectionOf 5 readMemory module.writeMemory module.sections.memory := by
  show SectionOf 5 readMemory module.writeMemory module.memoryPages
  rw [writeMemory]
  cases module.memoryPages with
  | none => exact .absent
  | some pages => exact .present (length_memorySection_lt pages) (reads_memory pages)

theorem section_of_table (module : Module) :
    SectionOf 4 readTable
      (if module.table.isEmpty then [] else writeSection 4 module.tableSection)
      module.sections.table := by
  by_cases empty : module.table.isEmpty
  · rw [sections, if_pos empty, if_pos empty]
    exact .absent
  · rw [sections, if_neg empty, if_neg empty]
    exact .present module.length_tableSection_lt (reads_table module)

theorem reads_names {module : Module} (fits : module.Fits) :
    Reads readNames module.nameSection module.sortedNames := by
  have count : module.sortedNames.length < 2 ^ 32 := by
    rw [sortedNames, List.length_mergeSort]
    exact fits.names
  have map_ := reads_vector_self count fun named member =>
    reads_function_name (fits.functionNames named (List.mem_mergeSort.1 member))
  have custom : NameFits "name" := by
    show ("name".toUTF8.data.toList).length < 2 ^ 32
    decide
  exact (reads_name custom).bind (Reads.met rfl
    ((Reads.expect 0x01).bind (reads_sized fits.functionNameMap map_)))

/-- The bytes of a module are read as its sections. -/
theorem reads_sections {module : Module} (fits : module.Fits) :
    readSections.run module.encode = some (module.sections, []) := by
  have types : SectionOf 1 (readVector readFuncType) _ module.sections.types :=
    section_of_list fits.typeSection (reads_vector_self fits.types fun ty member =>
      reads_func_type (fits.signatures ty member).1 (fits.signatures ty member).2)
  have imports : SectionOf 2 (readVector readImport) _ module.sections.imports :=
    section_of_list fits.importSection (reads_vector_self fits.imports
      fun import_ member => reads_import (fits.importNames import_ member).1
        (fits.importNames import_ member).2)
  have functions : SectionOf 3 (readVector readU32) _ module.sections.functions :=
    section_of_list fits.functionSection (reads_vector fits.funcs
      fun func _ => reads_u32 func.typeIndex)
  have table := module.section_of_table
  have memory := module.section_of_memory
  have exports := section_of_exports fits
  have elements : SectionOf 9 readElements _ module.sections.elements :=
    section_of_list fits.elementSection (reads_elements fits.table)
  have code : SectionOf 10 (readVector (readSized readBody)) _ module.sections.code :=
    section_of_list fits.codeSection (reads_vector fits.funcs fun func member =>
      reads_sized (fits.bodies func member) (reads_body (fits.locals func member)))
  have data : SectionOf 11 (readVector readDataSegment) _ module.sections.data :=
    section_of_list fits.dataSection (reads_vector_self fits.data
      fun segment member => reads_data_segment (fits.segments segment member))
  have names : SectionOf 0 readNames _ module.sections.names :=
    section_of_list fits.nameSection (reads_names fits)
  -- What each section is followed by, from the last one back.
  have after11 := names.opens opens_nil
  have after10 := data.opens after11
  have after9 := code.opens after10
  have after7 := elements.opens after9
  have after5 := exports.opens after7
  have after4 := memory.opens after5
  have after3 := table.opens after4
  have after2 := functions.opens after3
  have after1 := imports.opens after2
  rw [encode, readSections, ← List.append_nil (_ ++ _)]
  simp only [List.append_assoc]
  rw [run_bind_of_run (Reads.bytes header _), if_pos rfl,
    run_bind_of_run (types.run after1 (by decide)),
    run_bind_of_run (imports.run after2 (by decide)),
    run_bind_of_run (functions.run after3 (by decide)),
    run_bind_of_run (table.run after4 (by decide)),
    run_bind_of_run (memory.run after5 (by decide)),
    run_bind_of_run (exports.run after7 (by decide)),
    run_bind_of_run (elements.run after9 (by decide)),
    run_bind_of_run (code.run after10 (by decide)),
    run_bind_of_run (data.run after11 (by decide)),
    run_bind_of_run (names.run opens_nil (by decide))]
  rfl

end Module

/-- A module is taken back from its bytes. -/
theorem decode_encode {module : Module} (fits : module.Fits) :
    decode module.encode = some module.normalised := by
  rw [decode, Module.reads_sections fits]
  exact Module.toModule_sections fits

/-- The bytes of a body determine its instructions, up to the markers. -/
theorem eraseAll_of_writeAll {left right : List Ins}
    (same : Ins.writeAll left = Ins.writeAll right) :
    Ins.eraseAll left = Ins.eraseAll right := by
  have readsLeft := reads_expression left
  have readsRight := reads_expression right
  rw [same] at readsLeft
  exact readsLeft.unique readsRight

/-- The encoder is faithful: what it writes for a module is read back as the module, each
number as the number, and two bodies with the same bytes are the same body. -/
theorem encode_faithful :
    (∀ module : Module, module.Fits →
      decode module.encode = some module.normalised) ∧
    (∀ value, Reads readU32 (writeU32 value) value) ∧
    (∀ value, Reads readI32 (writeI32 value) value) ∧
    (∀ value, Reads readI64 (writeI64 value) value) ∧
    (∀ left right, Ins.writeAll left = Ins.writeAll right →
      Ins.eraseAll left = Ins.eraseAll right) := by
  refine ⟨?_, reads_u32, reads_i32, reads_i64, ?_⟩
  · intro module fits
    exact decode_encode fits
  · intro left right same
    exact eraseAll_of_writeAll same

/-- A module with an entry in every section. -/
def signModule : Module where
  types := [⟨[.i64], [.i64]⟩]
  imports := [⟨"console", "write", 0⟩]
  funcs := [⟨0, [.i64, .i64, .i32],
    [.marked 7 (.localGet 0), .i64Eqz, .if_ (some .i64) [.i64Const (-1)] []]⟩]
  exports := [("sign", 1)]
  memoryPages := some 1
  exportedMemory := some "memory"
  data := [(8, [1, 2, 255])]
  table := [1]
  names := [(1, "sign")]

theorem signModule_fits : signModule.Fits := by
  have sorted : signModule.sortedNames = signModule.names :=
    List.mergeSort_singleton _
  constructor
  case functionNameMap =>
    rw [sorted]
    decide +kernel
  case nameSection =>
    rw [Module.nameSection, sorted]
    decide +kernel
  all_goals decide +kernel

theorem encode_faithful_sign :
    decode signModule.encode = some signModule.normalised ∧
    Reads readI64 (writeI64 (-1)) (-1) :=
  ⟨encode_faithful.1 signModule signModule_fits, encode_faithful.2.2.2.1 (-1)⟩

end Deed.Wasm
