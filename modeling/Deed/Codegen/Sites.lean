import Deed.Codegen.Compile

/-!
# Where a marked instruction is

A body is held as instructions and written as bytes.  `finishSites` of
`crates/deed-codegen/src/compile.rs` walks the instructions and adds up what each of them will
take, so that the bytes of one that was marked can be told from its source span.
-/

namespace Deed.Codegen

open Deed.Ast (Span)
open Deed.Wasm

/-- A source span, and the number of bytes of the body before the instruction it is about. -/
structure InstructionSpan where
  offset : UInt32
  span : Span
  role : SpanRole

structure FunctionSpans where
  function : UInt32
  sites : List InstructionSpan

def instructionSize (instruction : Ins) : UInt32 := .ofNat instruction.write.length

/-- What the walk over a body changes. -/
structure Walked where
  /-- Where each site turned out to be. -/
  out : List (Option InstructionSpan)
  offset : UInt32

namespace Walked

/-- Moves past some bytes; a sum past 32 bits panics in a build that checks it. -/
def past (checks : Bool) (bytes : UInt32) (walked : Walked) : Option Walked :=
  if checks = true ∧ 2 ^ 32 ≤ walked.offset.toNat + bytes.toNat then none
  else some { walked with offset := walked.offset + bytes }

/-- Notes that a site is here. -/
def note (sites : List SiteDraft) (site : UInt32) (walked : Walked) : Option Walked := do
  let draft ← sites[site.toNat]?
  some { walked with
    out := walked.out.set site.toNat (some ⟨walked.offset, draft.span, draft.role⟩) }

end Walked

section Walk

variable (checks : Bool) (sites : List SiteDraft)

mutual

/-- Walks one instruction. -/
def walk : Ins → Walked → Option Walked
  | .marked site inner, walked => do
      let noted ← walked.note sites site
      walk inner noted
  | .block _ body, walked => do
      let opened ← walked.past checks 2
      let inside ← walkAll body opened
      inside.past checks 1
  | .loop _ body, walked => do
      let opened ← walked.past checks 2
      let inside ← walkAll body opened
      inside.past checks 1
  | .if_ _ then_ otherwise, walked => do
      let opened ← walked.past checks 2
      let inside ← walkAll then_ opened
      let both ←
        (if otherwise.isEmpty then some inside
        else do
          let split ← inside.past checks 1
          walkAll otherwise split)
      both.past checks 1
  | instruction, walked => walked.past checks (instructionSize instruction)

def walkAll : List Ins → Walked → Option Walked
  | [], walked => some walked
  | instruction :: rest, walked => do
      let walked ← walk instruction walked
      walkAll rest walked

end

/-- The spans of a body, by site; a site without an instruction is not expected. -/
def finishSites (function : UInt32) (body : List Ins) : Option FunctionSpans := do
  let walked ← walkAll checks sites body ⟨List.replicate sites.length none, 0⟩
  let placed ← walked.out.mapM fun site => site
  some ⟨function, placed⟩

end Walk

/-! ## Where an instruction stands -/

/-- An instruction stands in a body, with these bytes of the body before it and these after. -/
inductive Stands : List Ins → List UInt8 → Ins → List UInt8 → Prop where
  | here (instruction : Ins) (rest : List Ins) :
      Stands (instruction :: rest) [] instruction (Ins.writeAll rest)
  | later (first : Ins) {rest : List Ins} {before : List UInt8} {instruction : Ins}
      {after : List UInt8} (stands : Stands rest before instruction after) :
      Stands (first :: rest) (first.write ++ before) instruction after
  | marked (site : UInt32) {inner : Ins} (rest : List Ins) {before : List UInt8}
      {instruction : Ins} {after : List UInt8} (stands : Stands [inner] before instruction after) :
      Stands (.marked site inner :: rest) before instruction (after ++ Ins.writeAll rest)
  | block (result : Option ValType) {body : List Ins} (rest : List Ins) {before : List UInt8}
      {instruction : Ins} {after : List UInt8} (stands : Stands body before instruction after) :
      Stands (.block result body :: rest) ([0x02, writeBlockType result] ++ before) instruction
        (after ++ 0x0b :: Ins.writeAll rest)
  | loop (result : Option ValType) {body : List Ins} (rest : List Ins) {before : List UInt8}
      {instruction : Ins} {after : List UInt8} (stands : Stands body before instruction after) :
      Stands (.loop result body :: rest) ([0x03, writeBlockType result] ++ before) instruction
        (after ++ 0x0b :: Ins.writeAll rest)
  | then_ (result : Option ValType) {body : List Ins} (otherwise rest : List Ins)
      {before : List UInt8} {instruction : Ins} {after : List UInt8}
      (stands : Stands body before instruction after) :
      Stands (.if_ result body otherwise :: rest) ([0x04, writeBlockType result] ++ before)
        instruction
        (after ++ (if otherwise.isEmpty then [] else 0x05 :: Ins.writeAll otherwise) ++
          0x0b :: Ins.writeAll rest)
  | otherwise (result : Option ValType) (then_ : List Ins) {body : List Ins} (rest : List Ins)
      {before : List UInt8} {instruction : Ins} {after : List UInt8}
      (stands : Stands body before instruction after) :
      Stands (.if_ result then_ body :: rest)
        ([0x04, writeBlockType result] ++ Ins.writeAll then_ ++ 0x05 :: before) instruction
        (after ++ 0x0b :: Ins.writeAll rest)

/-- What stands in a body is what the body is written as there. -/
theorem Stands.bytes {body : List Ins} {before : List UInt8} {instruction : Ins}
    {after : List UInt8} (stands : Stands body before instruction after) :
    Ins.writeAll body = before ++ instruction.write ++ after := by
  induction stands with
  | here instruction rest => rw [Ins.writeAll, List.nil_append]
  | later first stands ih => rw [Ins.writeAll, ih, List.append_assoc, List.append_assoc,
      List.append_assoc]
  | marked site rest stands ih =>
      rw [Ins.writeAll, Ins.write]
      rw [Ins.writeAll, Ins.writeAll, List.append_nil] at ih
      rw [ih, List.append_assoc, List.append_assoc]
  | block result rest stands ih =>
      rw [Ins.writeAll, Ins.write, ih]
      simp only [List.append_assoc, List.cons_append, List.nil_append]
  | loop result rest stands ih =>
      rw [Ins.writeAll, Ins.write, ih]
      simp only [List.append_assoc, List.cons_append, List.nil_append]
  | then_ result otherwise rest stands ih =>
      rw [Ins.writeAll, Ins.write, ih]
      simp only [List.append_assoc, List.cons_append, List.nil_append]
  | @otherwise result then_ body rest before instruction after stands ih =>
      have some_ : body.isEmpty = false := by
        cases body with
        | nil => cases stands
        | cons first rest => rfl
      rw [Ins.writeAll, Ins.write, ih, some_, if_neg Bool.false_ne_true]
      simp only [List.append_assoc, List.cons_append, List.nil_append]

/-! ## Where a body stands in a module -/

/-- The bytes of a module before its code section. -/
def beforeCode (module : Module) : List UInt8 :=
  header ++
  (if module.types.isEmpty then [] else writeSection 1 module.typeSection) ++
  (if module.imports.isEmpty then [] else writeSection 2 module.importSection) ++
  (if module.funcs.isEmpty then [] else writeSection 3 module.functionSection) ++
  (if module.table.isEmpty then [] else writeSection 4 module.tableSection) ++
  module.writeMemory ++
  (if module.exports.isEmpty ∧ module.exportedMemory.isNone then []
    else writeSection 7 module.exportSection) ++
  (if module.table.isEmpty then [] else writeSection 9 module.elementSection)

/-- The bytes of a module before the first instruction of one of its functions. -/
def beforeBody (module : Module) (position : Nat) (func : Func) : List UInt8 :=
  beforeCode module ++ 10 :: writeU32 (.ofNat module.codeSection.length) ++
    writeU32 (.ofNat module.funcs.length) ++
    (module.funcs.take position).flatMap (fun earlier => writeSized earlier.writeBody) ++
    writeU32 (.ofNat func.writeBody.length) ++
    writeVector (fun run : UInt32 × ValType => writeU32 run.1 ++ [run.2.byte])
      (compressLocals func.locals)

/-- The bytes of a module are those before a body, the body, and some more. -/
theorem encode_body {module : Module} {position : Nat} {func : Func}
    (placed : module.funcs[position]? = some func) :
    ∃ rest, module.encode =
      beforeBody module position func ++ Ins.writeAll func.body ++ rest := by
  obtain ⟨inside, found⟩ := List.getElem?_eq_some_iff.1 placed
  have present : module.funcs.isEmpty = false := by
    rw [List.isEmpty_eq_false_iff]
    rintro none_
    rw [none_] at inside
    exact absurd inside (Nat.not_lt_zero _)
  have split_ : module.funcs =
      module.funcs.take position ++ func :: module.funcs.drop (position + 1) := by
    rw [← found, ← List.drop_eq_getElem_cons inside, List.take_append_drop]
  have code : module.codeSection =
      writeU32 (.ofNat module.funcs.length) ++
        ((module.funcs.take position).flatMap (fun earlier => writeSized earlier.writeBody) ++
          (writeSized func.writeBody ++
            (module.funcs.drop (position + 1)).flatMap fun later =>
              writeSized later.writeBody)) := by
    rw [Module.codeSection, writeVector]
    congr 1
    conv_lhs => rw [split_]
    rw [List.flatMap_append, List.flatMap_cons]
  refine ⟨0x0b :: (module.funcs.drop (position + 1)).flatMap
    (fun later => writeSized later.writeBody) ++
    (if module.data.isEmpty then [] else writeSection 11 module.dataSection) ++
    (if module.names.isEmpty then [] else writeSection 0 module.nameSection), ?_⟩
  have sized : writeSized func.writeBody =
      writeU32 (.ofNat func.writeBody.length) ++
        (writeVector (fun run : UInt32 × ValType => writeU32 run.1 ++ [run.2.byte])
          (compressLocals func.locals) ++ (Ins.writeAll func.body ++ [0x0b])) := rfl
  have section_ : writeSection 10 module.codeSection =
      10 :: (writeU32 (.ofNat module.codeSection.length) ++
        (writeU32 (.ofNat module.funcs.length) ++
        ((module.funcs.take position).flatMap (fun earlier => writeSized earlier.writeBody) ++
          (writeSized func.writeBody ++
            (module.funcs.drop (position + 1)).flatMap fun later =>
              writeSized later.writeBody)))) := by
    rw [← code]
    rfl
  have whole : module.encode = beforeCode module ++ writeSection 10 module.codeSection ++
      (if module.data.isEmpty then [] else writeSection 11 module.dataSection) ++
      (if module.names.isEmpty then [] else writeSection 0 module.nameSection) := by
    rw [Module.encode, beforeCode, present]
    rfl
  rw [whole, section_, sized, beforeBody]
  simp only [List.append_assoc, List.cons_append, List.nil_append]

end Deed.Codegen
