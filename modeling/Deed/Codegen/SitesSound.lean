import Deed.Codegen.Marking

/-!
# Sites point at their instruction

Every site of a compiled body is found, and the offset it is found at is the number of bytes
before the instruction that it marks.
-/

namespace Deed.Codegen

open Deed.Library
open Deed.Mir Deed.Runtime Deed.Wasm

/-- What is found of a site points at the one instruction that is marked with it, in the body and
in every module that holds the body. -/
def Points (builder : Builder) (body : List Ins) (site : Nat) (draft : SiteDraft)
    (found : InstructionSpan) : Prop :=
  ∃ inner before after,
    Stands body before (.marked (.ofNat site) inner) after ∧
    (∀ other earlier later, Stands body earlier (.marked (.ofNat site) other) later →
      other = inner ∧ earlier = before) ∧
    Answers builder draft inner ∧
    found.offset.toNat = before.length ∧ found.span = draft.span ∧ found.role = draft.role ∧
    ∀ (module : Module) position func, module.funcs[position]? = some func → func.body = body →
      ∃ rest, module.encode = beforeBody module position func ++ before ++ inner.write ++ rest

/-! ## No more marks than bytes -/

theorem write_positive (instruction : Ins) : 0 < instruction.write.length := by
  cases instruction with
  | marked site inner =>
      rw [Ins.write]
      exact write_positive inner
  | _ => rw [Ins.write]; exact Nat.succ_pos _

mutual

/-- What is marked takes at least one byte, where no mark is on another. -/
theorem entries_le (instruction : Ins)
    (bare : ∀ entry ∈ entries instruction, entries entry.2 = []) :
    (entries instruction).length ≤ instruction.write.length := by
  cases instruction with
  | marked site inner =>
      rw [entries] at bare ⊢
      rw [bare (site, inner) List.mem_cons_self, Ins.write]
      exact write_positive inner
  | block result body =>
      rw [entries] at bare ⊢
      have inside := entriesAll_le body bare
      rw [Ins.write]
      simp only [List.length_cons, List.length_append]
      omega
  | loop result body =>
      rw [entries] at bare ⊢
      have inside := entriesAll_le body bare
      rw [Ins.write]
      simp only [List.length_cons, List.length_append]
      omega
  | if_ result then_ otherwise =>
      rw [entries] at bare ⊢
      have thenInside := entriesAll_le then_ fun entry listed =>
        bare entry (List.mem_append_left _ listed)
      have elseInside := entriesAll_le otherwise fun entry listed =>
        bare entry (List.mem_append_right _ listed)
      rw [Ins.write]
      cases otherwise with
      | nil =>
          simp only [entriesAll, List.length_cons, List.length_append, List.length_nil]
          omega
      | cons first rest =>
          simp only [List.isEmpty_cons, Bool.false_eq_true, if_false, List.length_cons,
            List.length_append]
          omega
  | _ => exact Nat.zero_le _

theorem entriesAll_le (body : List Ins)
    (bare : ∀ entry ∈ entriesAll body, entries entry.2 = []) :
    (entriesAll body).length ≤ (Ins.writeAll body).length := by
  cases body with
  | nil => exact Nat.zero_le _
  | cons first rest =>
      rw [entriesAll] at bare ⊢
      have head := entries_le first fun entry listed => bare entry (List.mem_append_left _ listed)
      have tail := entriesAll_le rest fun entry listed =>
        bare entry (List.mem_append_right _ listed)
      rw [Ins.writeAll, List.length_append, List.length_append]
      omega

end

theorem Answers.bare {builder : Builder} {site : SiteDraft} {inner : Ins}
    (answers : Answers builder site inner) : entries inner = [] := by
  cases answers with
  | operator span chosen => exact (gives_operation _ _ _ _ _ chosen).2.2
  | _ => rfl

theorem Numbered.bare {builder : Builder} {start : Nat} {sites : List SiteDraft}
    {marked : List (UInt32 × Ins)} (numbered : Numbered builder start sites marked) :
    ∀ entry ∈ marked, entries entry.2 = [] := by
  have each := numbered.each
  clear numbered
  induction each with
  | nil => exact fun _ listed => absurd listed List.not_mem_nil
  | cons answers _ ih =>
      intro entry listed
      rcases List.mem_cons.1 listed with rfl | later
      · exact answers.bare
      · exact ih entry later

/-! ## A numbered body -/

section Body

variable {builder : Builder} {body : List Ins} {sites : List SiteDraft}

theorem numbers_get {site count : Nat} (inside : site < count) :
    (numbers 0 count)[site]? = some (.ofNat site) := by
  rw [numbers, List.getElem?_map, List.getElem?_range' inside, Nat.zero_add, Nat.one_mul]
  rfl

/-- The mark of a site of a numbered body. -/
theorem exists_mark (numbered : Numbered builder 0 sites (entriesAll body))
    {site : Nat} {draft : SiteDraft} (known : sites[site]? = some draft) :
    ∃ mark, (marksAll 0 body)[site]? = some mark ∧ mark.site = .ofNat site ∧
      Answers builder draft mark.inner := by
  obtain ⟨inside, same⟩ := List.getElem?_eq_some_iff.1 known
  obtain ⟨count, answers⟩ := List.forall₂_iff_get.1 numbered.each
  have inside' : site < (entriesAll body).length := count ▸ inside
  obtain ⟨entry, found⟩ : ∃ entry, (entriesAll body)[site]? = some entry :=
    ⟨_, List.getElem?_eq_getElem inside'⟩
  have number : some entry.1 = some (UInt32.ofNat site) := by
    rw [← numbers_get inside, ← numbered.order, List.getElem?_map, found]
    rfl
  have answered : Answers builder draft entry.2 := by
    have answers := answers site inside inside'
    rw [List.get_eq_getElem, List.get_eq_getElem, same] at answers
    rwa [(List.getElem?_eq_some_iff.1 found).2] at answers
  rw [← entry_marksAll 0 body, List.getElem?_map] at found
  obtain ⟨mark, listed, rfl⟩ := Option.map_eq_some_iff.1 found
  exact ⟨mark, listed, Option.some.inj number, answered⟩

/-- No two marks have the same site. -/
theorem mark_unique (numbered : Numbered builder 0 sites (entriesAll body))
    (few : sites.length < 2 ^ 32) {first second : Mark} (one : first ∈ marksAll 0 body)
    (two : second ∈ marksAll 0 body) (same : first.site = second.site) : first = second := by
  have place {mark : Mark} (listed : mark ∈ marksAll 0 body) :
      ∃ position, position < sites.length ∧ (marksAll 0 body)[position]? = some mark ∧
        mark.site = .ofNat position := by
    obtain ⟨position, inside, found⟩ := List.mem_iff_getElem.1 listed
    have placed : (marksAll 0 body)[position]? = some mark :=
      List.getElem?_eq_some_iff.2 ⟨inside, found⟩
    have count : (marksAll 0 body).length = sites.length := by
      rw [(List.forall₂_iff_get.1 numbered.each).1, ← entry_marksAll 0 body, List.length_map]
    have known := List.getElem?_eq_getElem (count ▸ inside : position < sites.length)
    obtain ⟨other, placed', site, -⟩ := exists_mark numbered known
    rw [placed] at placed'
    cases placed'
    exact ⟨position, count ▸ inside, placed, site⟩
  obtain ⟨position, inside, placed, site⟩ := place one
  obtain ⟨position', inside', placed', site'⟩ := place two
  have equal : position = position' := by
    rw [site, site'] at same
    rw [← toNat_site (show position < 2 ^ 32 by omega), same, toNat_site (by omega)]
  rw [equal, placed'] at placed
  exact (Option.some.inj placed).symm

theorem points_of_numbered (numbered : Numbered builder 0 sites (entriesAll body))
    (small : (Ins.writeAll body).length < 2 ^ 32) (few : sites.length < 2 ^ 32) {site : Nat}
    {draft : SiteDraft} (known : sites[site]? = some draft) {found : InstructionSpan}
    (noticed : ((marksAll 0 body).map (pinned sites))[site]? = some (some found)) :
    Points builder body site draft found := by
  obtain ⟨mark, listed, number, answers⟩ := exists_mark numbered known
  have inside := (List.getElem?_eq_some_iff.1 known).1
  have told : found = ⟨.ofNat mark.offset, draft.span, draft.role⟩ := by
    rw [List.getElem?_map, listed, Option.map_some, pinned, number,
      toNat_site (show site < 2 ^ 32 by omega), known] at noticed
    exact (Option.some.inj (Option.some.inj noticed)).symm
  have among := List.mem_of_getElem? listed
  obtain ⟨before, after, stands, offset⟩ := stands_of_marksAll 0 body mark among
  rw [Nat.zero_add] at offset
  rw [number] at stands
  have bytes := stands.bytes
  have room : before.length < 2 ^ 32 := by
    have whole := congrArg List.length bytes
    simp only [List.length_append] at whole
    omega
  refine ⟨mark.inner, before, after, stands, ?_, answers, ?_, ?_, ?_, ?_⟩
  · intro other earlier later stands'
    have among' := mark_of_stands stands' rfl 0
    have same := mark_unique numbered few among' among number.symm
    have length : earlier.length = before.length := by
      rw [← offset, ← same]
      exact (Nat.zero_add _).symm
    have parts := stands'.bytes.symm.trans bytes
    rw [List.append_assoc, List.append_assoc] at parts
    exact ⟨congrArg Mark.inner same, (List.append_inj parts length).1⟩
  · rw [told, offset]
    exact toNat_site room
  · rw [told]
  · rw [told]
  · intro module position func placed holds
    obtain ⟨rest, whole⟩ := encode_body placed
    refine ⟨after ++ rest, ?_⟩
    rw [whole, holds, bytes, Ins.write]
    simp only [List.append_assoc]

end Body

/-- Every site of a compiled body of fewer than `2 ^ 32` bytes is found, and points at the one
instruction that is marked with it. -/
theorem sites_point (checks : Bool) (builder : Builder) (body : Block) (strings : Strings)
    (extraLocals : List ValType) (code : List Ins) (later : Drafted)
    (compiled : builder.block body ⟨strings, extraLocals, []⟩ = some (.ok code, later))
    (small : (Ins.writeAll (code ++ [.return_])).length < 2 ^ 32) (function : UInt32) :
    ∃ spans, finishSites checks later.sites function (code ++ [.return_]) =
        some ⟨function, spans⟩ ∧ spans.length = later.sites.length ∧
      ∀ site draft, later.sites[site]? = some draft →
        ∃ found, spans[site]? = some found ∧
          Points builder (code ++ [.return_]) site draft found := by
  obtain ⟨sites, marked, added, numbered, whole⟩ := writes_block builder body _ code later compiled
  rw [List.nil_append] at added whole
  rw [List.length_nil] at numbered
  have returned : entriesAll (code ++ [.return_]) = marked := by
    rw [entriesAll_append, whole]
    exact List.append_nil marked
  rw [← returned] at numbered
  have few : sites.length < 2 ^ 32 := by
    have least := entriesAll_le (code ++ [.return_]) numbered.bare
    rw [← (List.forall₂_iff_get.1 numbered.each).1] at least
    omega
  have order : (marksAll 0 (code ++ [.return_])).map Mark.site = numbers 0 sites.length := by
    rw [← numbered.order, ← entry_marksAll 0, List.map_map]
    rfl
  subst added
  obtain ⟨spans, finished, every⟩ := @finishSites_eq checks later.sites function
    (code ++ [.return_]) order few.le fun _ => small
  have count : spans.length = later.sites.length := by
    have same := congrArg List.length every
    rw [List.length_map, List.length_map, ← List.length_map Mark.site, order, numbers,
      List.length_map, List.length_range'] at same
    exact same
  refine ⟨spans, finished, count, fun site draft known => ?_⟩
  have inside := (List.getElem?_eq_some_iff.1 known).1
  refine ⟨spans[site], List.getElem?_eq_getElem _, ?_⟩
  refine points_of_numbered numbered small few known ?_
  rw [← every, List.getElem?_map, List.getElem?_eq_getElem (count ▸ inside)]
  rfl

theorem writeU32_zero : writeU32 0 = [0] := by
  rw [writeU32, if_neg (by decide)]
  rfl

theorem writeI32_one : writeI32 1 = [1] := by
  rw [writeI32, writeI64, if_pos (by decide)]
  rfl

theorem writeI64_zero : writeI64 0 = [0] := by
  rw [writeI64, if_pos (by decide)]
  rfl

theorem bare_uncounted (layout : Layout) (listed : layout ∈ []) :
    layout.variants.length < 2 ^ 63 :=
  absurd listed List.not_mem_nil

/-- The builder of a function without parameters, in a program of nothing else. -/
def bareBuilder : Builder where
  program := ⟨[], [], [], bare_uncounted⟩
  function := ⟨"f", [], .unit, [], .of .unit⟩
  signatures := []
  imports := []
  shift := 0
  helpers _ := none
  equals := []
  hashes := []
  lowercase := id

/-- `if true { f() } else { f() }`, each call with a span of its own. -/
def callsInArms : Block :=
  .of (.if_ (.bool true) (.of (.call 0 [] ⟨1, 2⟩)) (.of (.call 0 [] ⟨3, 4⟩)) .unit)

/-- Both calls are found, the second behind the arm of the first. -/
theorem sites_point_twice :
    ∃ spans, finishSites true [⟨⟨1, 2⟩, .call⟩, ⟨⟨3, 4⟩, .call⟩] 0
        ([.i32Const 1, .if_ none [.marked 0 (.call 0)] [.marked 1 (.call 0)]] ++ [.return_]) =
        some ⟨0, spans⟩ ∧ spans.length = 2 ∧
      ∀ site draft, [(⟨⟨1, 2⟩, .call⟩ : SiteDraft), ⟨⟨3, 4⟩, .call⟩][site]? = some draft →
        ∃ found, spans[site]? = some found ∧
          Points bareBuilder ([.i32Const 1, .if_ none [.marked 0 (.call 0)] [.marked 1 (.call 0)]] ++
            [.return_]) site draft found := by
  refine sites_point true bareBuilder callsInArms ⟨0, [], []⟩ [] _
    ⟨⟨0, [], []⟩, [], [⟨⟨1, 2⟩, .call⟩, ⟨⟨3, 4⟩, .call⟩]⟩ ?_ ?_ 0
  · rfl
  · simp [Ins.writeAll, Ins.write, writeU32_zero, writeI32_one]

/-! ## Where an offset wraps -/

/-- So many statements that are nothing but a number, and then a call. -/
def callBehind (statements : Nat) : Block :=
  .mk (List.replicate statements (.discard (.int 0))) (.call 0 [] ⟨0, 0⟩)

/-- What is before the call. -/
def codeBefore (statements : Nat) : List Ins :=
  (List.replicate statements [.i64Const 0, .drop]).flatten

theorem stmts_replicate (statements : Nat) (drafted : Drafted) :
    bareBuilder.stmts (List.replicate statements (.discard (.int 0))) drafted =
      some (.ok (codeBefore statements), drafted) := by
  induction statements with
  | zero => rfl
  | succ statements ih =>
      have first : bareBuilder.stmt (.discard (.int 0)) drafted =
          some (.ok [.i64Const 0, .drop], drafted) := rfl
      rw [List.replicate_succ, Builder.stmts, Action.run_bind_ok first, Action.run_bind_ok ih]
      rfl

theorem length_codeBefore (statements : Nat) :
    (Ins.writeAll (codeBefore statements)).length = 3 * statements := by
  induction statements with
  | zero => rfl
  | succ statements ih =>
      have more : codeBefore (statements + 1) = [.i64Const 0, .drop] ++ codeBefore statements := rfl
      rw [more]
      simp only [List.cons_append, List.nil_append, Ins.writeAll, Ins.write, writeI64_zero,
        List.length_cons, ih]
      omega

theorem marks_codeBefore (statements start : Nat) (rest : List Ins) :
    marksAll start (codeBefore statements ++ rest) = marksAll (start + 3 * statements) rest := by
  induction statements generalizing start with
  | zero => rfl
  | succ statements ih =>
      have more : codeBefore (statements + 1) = [.i64Const 0, .drop] ++ codeBefore statements := rfl
      rw [more]
      simp only [List.cons_append, List.nil_append, marksAll, marks, Ins.write, writeI64_zero,
        List.length_cons, List.length_nil, ih]
      congr 1
      omega

theorem call_compiled (statements : Nat) :
    bareBuilder.block (callBehind statements) ⟨⟨0, [], []⟩, [], []⟩ =
      some (.ok (codeBefore statements ++ [.marked 0 (.call 0)]),
        ⟨⟨0, [], []⟩, [], [⟨⟨0, 0⟩, .call⟩]⟩) := by
  rw [callBehind, Builder.block, Action.run_bind_ok (stmts_replicate statements _)]
  rfl

/-- The offset of the call, in a build that wraps. -/
theorem finishSites_call (statements : Nat) :
    finishSites false [⟨⟨0, 0⟩, .call⟩] 0
        (codeBefore statements ++ [.marked 0 (.call 0)] ++ [.return_]) =
      some ⟨0, [⟨.ofNat (3 * statements), ⟨0, 0⟩, .call⟩]⟩ := by
  have only : marksAll 0 (codeBefore statements ++ [.marked 0 (.call 0)] ++ [.return_]) =
      [⟨0, 3 * statements, .call 0⟩] := by
    rw [List.append_assoc, marks_codeBefore, Nat.zero_add]
    rfl
  obtain ⟨spans, finished, every⟩ := @finishSites_eq false [⟨⟨0, 0⟩, .call⟩] 0
    (codeBefore statements ++ [.marked 0 (.call 0)] ++ [.return_]) (by rw [only]; rfl)
    (by decide) nofun
  rw [only] at every
  have same : spans.map some =
      [some (⟨.ofNat (3 * statements), ⟨0, 0⟩, .call⟩ : InstructionSpan)] := every
  obtain ⟨found, rest, rfl, one, none_⟩ := List.map_eq_cons_iff.1 same
  rw [finished, List.map_eq_nil_iff.1 none_, Option.some.inj one]

theorem call_stands (statements : Nat) :
    ∃ after, Stands (codeBefore statements ++ [.marked 0 (.call 0)] ++ [.return_])
      (Ins.writeAll (codeBefore statements)) (.marked 0 (.call 0)) after := by
  induction statements with
  | zero => exact ⟨_, .here _ _⟩
  | succ statements ih =>
      obtain ⟨after, stands⟩ := ih
      refine ⟨after, ?_⟩
      have more : Ins.writeAll (codeBefore (statements + 1)) =
          (Ins.i64Const 0).write ++ (Ins.drop.write ++ Ins.writeAll (codeBefore statements)) := rfl
      rw [more]
      exact .later _ (.later _ stands)

/-- A call behind `6442450944` bytes is found at `2147483648`. -/
theorem offset_wrapped :
    ∃ body code later found before after,
      bareBuilder.block body ⟨⟨0, [], []⟩, [], []⟩ = some (.ok code, later) ∧
      finishSites false later.sites 0 (code ++ [.return_]) = some ⟨0, [found]⟩ ∧
      Stands (code ++ [.return_]) before (.marked 0 (.call 0)) after ∧
      before.length = 6442450944 ∧ found.offset = 2147483648 := by
  obtain ⟨after, stands⟩ := call_stands 2147483648
  refine ⟨callBehind 2147483648, _, _, _, _, after, call_compiled 2147483648,
    finishSites_call 2147483648, stands, ?_, ?_⟩
  · rw [length_codeBefore]
  · rfl

end Deed.Codegen
