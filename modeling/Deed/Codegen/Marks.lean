import Deed.Codegen.Sites

/-!
# The marks of a body

Every mark of a body, with the number of bytes before what it marks.  The walk that adds up
sizes stands at each of them where its bytes will start, and where the marks are numbered in
order every site is given what its own mark says.
-/

namespace Deed.Codegen

open Deed.Wasm

/-! ## Marks and where they are -/

/-- A marked instruction, and the number of bytes before it. -/
structure Mark where
  site : UInt32
  offset : Nat
  inner : Ins

mutual

/-- The marks of an instruction that starts at a byte, from the left. -/
def marks (start : Nat) : Ins → List Mark
  | .marked site inner => ⟨site, start, inner⟩ :: marks start inner
  | .block _ body => marksAll (start + 2) body
  | .loop _ body => marksAll (start + 2) body
  | .if_ _ then_ otherwise =>
      marksAll (start + 2) then_ ++
        marksAll (start + 2 + (Ins.writeAll then_).length + 1) otherwise
  | _ => []

def marksAll (start : Nat) : List Ins → List Mark
  | [] => []
  | instruction :: rest =>
      marks start instruction ++ marksAll (start + instruction.write.length) rest

end

mutual

/-- The numbers of the marks of an instruction, and what they mark. -/
def entries : Ins → List (UInt32 × Ins)
  | .marked site inner => (site, inner) :: entries inner
  | .block _ body => entriesAll body
  | .loop _ body => entriesAll body
  | .if_ _ then_ otherwise => entriesAll then_ ++ entriesAll otherwise
  | _ => []

def entriesAll : List Ins → List (UInt32 × Ins)
  | [] => []
  | instruction :: rest => entries instruction ++ entriesAll rest

end

def Mark.entry (mark : Mark) : UInt32 × Ins := (mark.site, mark.inner)

mutual

theorem entry_marks (start : Nat) (instruction : Ins) :
    (marks start instruction).map Mark.entry = entries instruction := by
  cases instruction with
  | marked site inner =>
      rw [marks, entries, List.map_cons, entry_marks start inner]
      rfl
  | block result body => rw [marks, entries, entry_marksAll]
  | loop result body => rw [marks, entries, entry_marksAll]
  | if_ result then_ otherwise =>
      rw [marks, entries, List.map_append, entry_marksAll, entry_marksAll]
  | _ => rfl

theorem entry_marksAll (start : Nat) (body : List Ins) :
    (marksAll start body).map Mark.entry = entriesAll body := by
  cases body with
  | nil => rfl
  | cons first rest =>
      rw [marksAll, entriesAll, List.map_append, entry_marks, entry_marksAll]

end

theorem entriesAll_append (first second : List Ins) :
    entriesAll (first ++ second) = entriesAll first ++ entriesAll second := by
  induction first with
  | nil => rfl
  | cons instruction rest ih =>
      rw [List.cons_append, entriesAll, entriesAll, ih, List.append_assoc]

/-! ### Marks stand where they say -/

theorem mark_of_stands {body : List Ins} {before : List UInt8} {instruction : Ins}
    {after : List UInt8} (stands : Stands body before instruction after) {site : UInt32}
    {inner : Ins} (marked : instruction = .marked site inner) (start : Nat) :
    ⟨site, start + before.length, inner⟩ ∈ marksAll start body := by
  induction stands generalizing start with
  | here instruction rest =>
      subst marked
      rw [marksAll, marks]
      exact List.mem_append_left _ List.mem_cons_self
  | later first stands ih =>
      have found := ih marked (start + first.write.length)
      rw [marksAll, List.length_append, ← Nat.add_assoc]
      exact List.mem_append_right _ found
  | marked other rest stands ih =>
      have found := ih marked start
      rw [marksAll, marksAll, List.append_nil] at found
      rw [marksAll, marks]
      exact List.mem_append_left _ (List.mem_cons_of_mem _ found)
  | block result rest stands ih =>
      rw [marksAll, marks, List.length_append, ← Nat.add_assoc]
      exact List.mem_append_left _ (ih marked (start + 2))
  | loop result rest stands ih =>
      rw [marksAll, marks, List.length_append, ← Nat.add_assoc]
      exact List.mem_append_left _ (ih marked (start + 2))
  | then_ result otherwise rest stands ih =>
      rw [marksAll, marks, List.length_append, ← Nat.add_assoc]
      exact List.mem_append_left _ (List.mem_append_left _ (ih marked (start + 2)))
  | @otherwise result then_ body rest before instruction after stands ih =>
      have found := ih marked (start + 2 + (Ins.writeAll then_).length + 1)
      have same : start + ([0x04, writeBlockType result] ++ Ins.writeAll then_ ++
          0x05 :: before).length =
            start + 2 + (Ins.writeAll then_).length + 1 + before.length := by
        simp only [List.length_append, List.length_cons, List.length_nil]
        omega
      rw [marksAll, marks, same]
      exact List.mem_append_left _ (List.mem_append_right _ found)

mutual

theorem stands_of_mark (start : Nat) (instruction : Ins) (rest : List Ins) (mark : Mark)
    (listed : mark ∈ marks start instruction) :
    ∃ before after, Stands (instruction :: rest) before (.marked mark.site mark.inner) after ∧
      mark.offset = start + before.length := by
  cases instruction with
  | marked site inner =>
      rw [marks] at listed
      rcases List.mem_cons.1 listed with rfl | deeper
      · exact ⟨[], _, .here _ rest, rfl⟩
      · obtain ⟨before, after, stands, offset⟩ := stands_of_mark start inner [] mark deeper
        exact ⟨before, _, .marked site rest stands, offset⟩
  | block result body =>
      rw [marks] at listed
      obtain ⟨before, after, stands, offset⟩ := stands_of_marksAll (start + 2) body mark listed
      refine ⟨_, _, .block result rest stands, ?_⟩
      rw [offset, List.length_append, ← Nat.add_assoc]
      rfl
  | loop result body =>
      rw [marks] at listed
      obtain ⟨before, after, stands, offset⟩ := stands_of_marksAll (start + 2) body mark listed
      refine ⟨_, _, .loop result rest stands, ?_⟩
      rw [offset, List.length_append, ← Nat.add_assoc]
      rfl
  | if_ result then_ otherwise =>
      rw [marks] at listed
      rcases List.mem_append.1 listed with listed | listed
      · obtain ⟨before, after, stands, offset⟩ :=
          stands_of_marksAll (start + 2) then_ mark listed
        refine ⟨_, _, .then_ result otherwise rest stands, ?_⟩
        rw [offset, List.length_append, ← Nat.add_assoc]
        rfl
      · obtain ⟨before, after, stands, offset⟩ := stands_of_marksAll _ otherwise mark listed
        refine ⟨_, _, .otherwise result then_ rest stands, ?_⟩
        rw [offset]
        simp only [List.length_append, List.length_cons, List.length_nil]
        omega
  | _ => exact absurd listed List.not_mem_nil

theorem stands_of_marksAll (start : Nat) (body : List Ins) (mark : Mark)
    (listed : mark ∈ marksAll start body) :
    ∃ before after, Stands body before (.marked mark.site mark.inner) after ∧
      mark.offset = start + before.length := by
  cases body with
  | nil => exact absurd listed List.not_mem_nil
  | cons first rest =>
      rw [marksAll] at listed
      rcases List.mem_append.1 listed with listed | listed
      · exact stands_of_mark start first rest mark listed
      · obtain ⟨before, after, stands, offset⟩ := stands_of_marksAll _ rest mark listed
        refine ⟨_, _, .later first stands, ?_⟩
        rw [offset, List.length_append, Nat.add_assoc]

end

/-! ## The walk -/

section Walk

variable {checks : Bool} {sites : List SiteDraft}

/-- What is noted of a mark. -/
def pinned (sites : List SiteDraft) (mark : Mark) : Option InstructionSpan :=
  sites[mark.site.toNat]?.map fun draft =>
    ⟨.ofNat mark.offset, draft.span, draft.role⟩

/-- What is noted of some marks, one after the other. -/
def pinnedAll (sites : List SiteDraft) (marks : List Mark) (out : List (Option InstructionSpan)) :
    List (Option InstructionSpan) :=
  marks.foldl (fun out mark => out.set mark.site.toNat (pinned sites mark)) out

theorem pinnedAll_append (first second : List Mark) (out : List (Option InstructionSpan)) :
    pinnedAll sites (first ++ second) out = pinnedAll sites second (pinnedAll sites first out) := by
  rw [pinnedAll, List.foldl_append]
  rfl

theorem past_eq {out : List (Option InstructionSpan)} {start bytes : Nat}
    (fits : checks = true → start + bytes < 2 ^ 32) :
    Walked.past checks (.ofNat bytes) ⟨out, .ofNat start⟩ =
      some ⟨out, .ofNat (start + bytes)⟩ := by
  have moved : UInt32.ofNat start + UInt32.ofNat bytes = UInt32.ofNat (start + bytes) :=
    (UInt32.ofNat_add start bytes).symm
  rw [Walked.past, if_neg]
  · simp only [moved]
  · rintro ⟨checked, past⟩
    have room := fits checked
    simp only [UInt32.toNat_ofNat'] at past
    omega

theorem note_eq {out : List (Option InstructionSpan)} {start : Nat} {site : UInt32} {inner : Ins}
    (known : site.toNat < sites.length) :
    Walked.note sites site ⟨out, .ofNat start⟩ =
      some ⟨out.set site.toNat (pinned sites ⟨site, start, inner⟩), .ofNat start⟩ := by
  simp only [Walked.note, pinned, List.getElem?_eq_getElem known, Option.bind_eq_bind,
    Option.bind_some, Option.map_some]

/-- What is enclosed has two bytes before it and one after it. -/
theorem enclosed_eq {start length : Nat} {walkBody : Walked → Option Walked}
    {out later : List (Option InstructionSpan)}
    (fits : checks = true → start + (2 + length + 1) < 2 ^ 32)
    (walked : (checks = true → start + 2 + length < 2 ^ 32) →
      walkBody ⟨out, .ofNat (start + 2)⟩ = some ⟨later, .ofNat (start + 2 + length)⟩) :
    (do
      let opened ← Walked.past checks 2 ⟨out, .ofNat start⟩
      let inside ← walkBody opened
      inside.past checks 1) = some ⟨later, .ofNat (start + (2 + length + 1))⟩ := by
  have opened : Walked.past checks (.ofNat 2) ⟨out, .ofNat start⟩ =
      some ⟨out, .ofNat (start + 2)⟩ :=
    past_eq fun checked => by have := fits checked; omega
  have inside := walked fun checked => by have := fits checked; omega
  have closed : Walked.past checks (.ofNat 1) ⟨later, .ofNat (start + 2 + length)⟩ =
      some ⟨later, .ofNat (start + 2 + length + 1)⟩ :=
    past_eq fun checked => by have := fits checked; omega
  have same : start + (2 + length + 1) = start + 2 + length + 1 := by omega
  change (Walked.past checks (.ofNat 2) _ >>= fun opened => walkBody opened >>= fun inside =>
    Walked.past checks (.ofNat 1) inside) = _
  simp only [opened, inside, closed, same, Option.bind_eq_bind, Option.bind_some]

/-- Two arms have one more byte between them. -/
theorem arms_eq {start first second : Nat} {walkThen walkElse : Walked → Option Walked}
    {out between later : List (Option InstructionSpan)}
    (fits : checks = true → start + (2 + (first + 1 + second) + 1) < 2 ^ 32)
    (thenArm : (checks = true → start + 2 + first < 2 ^ 32) →
      walkThen ⟨out, .ofNat (start + 2)⟩ = some ⟨between, .ofNat (start + 2 + first)⟩)
    (elseArm : (checks = true → start + 2 + first + 1 + second < 2 ^ 32) →
      walkElse ⟨between, .ofNat (start + 2 + first + 1)⟩ =
        some ⟨later, .ofNat (start + 2 + first + 1 + second)⟩) :
    (do
      let opened ← Walked.past checks 2 ⟨out, .ofNat start⟩
      let inside ← walkThen opened
      let split ← inside.past checks 1
      let both ← walkElse split
      both.past checks 1) = some ⟨later, .ofNat (start + (2 + (first + 1 + second) + 1))⟩ := by
  have apart : Walked.past checks (.ofNat 1) ⟨between, .ofNat (start + 2 + first)⟩ =
      some ⟨between, .ofNat (start + 2 + first + 1)⟩ :=
    past_eq fun checked => by have := fits checked; omega
  have same : start + 2 + (first + 1 + second) = start + 2 + first + 1 + second := by omega
  have enclosed := @enclosed_eq checks start (first + 1 + second)
    (fun opened => walkThen opened >>= fun inside =>
      Walked.past checks (.ofNat 1) inside >>= walkElse) out later fits
  simp only [Option.bind_eq_bind, Option.bind_assoc] at enclosed ⊢
  refine enclosed fun fits => ?_
  rw [thenArm fun checked => by have := fits checked; omega]
  simp only [Option.bind_some, apart]
  rw [elseArm fun checked => by have := fits checked; omega, same]

mutual

/-- The walk over an instruction notes its marks and ends where its bytes do. -/
theorem walk_eq (start : Nat) (instruction : Ins) (out : List (Option InstructionSpan))
    (known : ∀ mark ∈ marks start instruction, mark.site.toNat < sites.length)
    (fits : checks = true → start + instruction.write.length < 2 ^ 32) :
    walk checks sites instruction ⟨out, .ofNat start⟩ =
      some ⟨pinnedAll sites (marks start instruction) out,
        .ofNat (start + instruction.write.length)⟩ := by
  cases instruction with
  | marked site inner =>
      rw [marks] at known
      have noted_ := @note_eq sites out start site inner (known _ List.mem_cons_self)
      rw [walk, noted_]
      exact walk_eq start inner _ (fun mark listed => known mark (List.mem_cons_of_mem _ listed))
        fits
  | block result body =>
      rw [marks] at known ⊢
      have size : (Ins.block result body).write.length = 2 + (Ins.writeAll body).length + 1 := by
        rw [Ins.write]
        simp only [List.length_cons, List.length_append, List.length_nil]
        omega
      rw [size] at fits ⊢
      rw [walk, enclosed_eq fits fun fits => walkAll_eq (start + 2) body out known fits]
  | loop result body =>
      rw [marks] at known ⊢
      have size : (Ins.loop result body).write.length = 2 + (Ins.writeAll body).length + 1 := by
        rw [Ins.write]
        simp only [List.length_cons, List.length_append, List.length_nil]
        omega
      rw [size] at fits ⊢
      rw [walk, enclosed_eq fits fun fits => walkAll_eq (start + 2) body out known fits]
  | if_ result then_ otherwise =>
      rw [marks] at known ⊢
      cases otherwise with
      | nil =>
          have size : (Ins.if_ result then_ []).write.length =
              2 + (Ins.writeAll then_).length + 1 := by
            rw [Ins.write, List.isEmpty_nil, if_pos rfl]
            simp only [List.length_cons, List.length_append, List.length_nil]
            omega
          rw [size] at fits ⊢
          rw [marksAll, List.append_nil] at known ⊢
          rw [walk]
          exact enclosed_eq fits fun fits => walkAll_eq (start + 2) then_ out known fits
      | cons first rest =>
          have size : (Ins.if_ result then_ (first :: rest)).write.length =
              2 + ((Ins.writeAll then_).length + 1 + (Ins.writeAll (first :: rest)).length) + 1 := by
            rw [Ins.write, List.isEmpty_cons, if_neg Bool.false_ne_true]
            simp only [List.length_cons, List.length_append, List.length_nil]
            omega
          rw [size] at fits ⊢
          have arms := arms_eq fits
            (fun fits => walkAll_eq (start + 2) then_ out
              (fun mark listed => known mark (List.mem_append_left _ listed)) fits)
            (fun fits => walkAll_eq _ (first :: rest)
              (pinnedAll sites (marksAll (start + 2) then_) out)
              (fun mark listed => known mark (List.mem_append_right _ listed)) fits)
          rw [walk, pinnedAll_append, ← arms, List.isEmpty_cons]
          simp only [Option.bind_eq_bind, Option.bind_assoc, Bool.false_eq_true, if_false]
  | _ => exact past_eq fits

theorem walkAll_eq (start : Nat) (body : List Ins) (out : List (Option InstructionSpan))
    (known : ∀ mark ∈ marksAll start body, mark.site.toNat < sites.length)
    (fits : checks = true → start + (Ins.writeAll body).length < 2 ^ 32) :
    walkAll checks sites body ⟨out, .ofNat start⟩ =
      some ⟨pinnedAll sites (marksAll start body) out,
        .ofNat (start + (Ins.writeAll body).length)⟩ := by
  cases body with
  | nil => rfl
  | cons first rest =>
      rw [marksAll] at known
      rw [Ins.writeAll, List.length_append] at fits
      have head := walk_eq start first out
        (fun mark listed => known mark (List.mem_append_left _ listed))
        (fun checked => by have := fits checked; omega)
      have tail := walkAll_eq (start + first.write.length) rest
        (pinnedAll sites (marks start first) out)
        (fun mark listed => known mark (List.mem_append_right _ listed))
        (fun checked => by have := fits checked; omega)
      rw [walkAll, head, marksAll, Ins.writeAll, List.length_append, ← Nat.add_assoc,
        pinnedAll_append]
      exact tail

end

/-! ### Sites that are numbered in order -/

/-- So many sites from a number on. -/
def numbers (start count : Nat) : List UInt32 := (List.range' start count).map UInt32.ofNat

theorem numbers_succ (start count : Nat) :
    numbers start (count + 1) = .ofNat start :: numbers (start + 1) count := by
  rw [numbers, List.range'_succ, List.map_cons]
  rfl

theorem numbers_append (start first second : Nat) :
    numbers start (first + second) = numbers start first ++ numbers (start + first) second := by
  rw [numbers, ← List.range'_append_1, List.map_append]
  rfl

theorem toNat_site {site : Nat} (few : site < 2 ^ 32) : (UInt32.ofNat site).toNat = site := by
  rw [UInt32.toNat_ofNat']
  exact Nat.mod_eq_of_lt few

/-- What is noted of marks that are numbered in order fills one place after the other. -/
theorem pinnedAll_numbered (ms : List Mark) (front : List (Option InstructionSpan))
    (numbered : ms.map Mark.site = numbers front.length ms.length)
    (few : front.length + ms.length ≤ 2 ^ 32) :
    pinnedAll sites ms (front ++ List.replicate ms.length none) =
      front ++ ms.map (pinned sites) := by
  induction ms generalizing front with
  | nil => rfl
  | cons mark rest ih =>
      rw [List.length_cons] at numbered few
      rw [numbers_succ, List.map_cons] at numbered
      obtain ⟨site, others⟩ := List.cons.inj numbered
      have place : mark.site.toNat = front.length := by
        rw [site]
        exact toNat_site (by omega)
      have filled : (front ++ List.replicate (rest.length + 1) none).set front.length
          (pinned sites mark) = front ++ [pinned sites mark] ++ List.replicate rest.length none := by
        rw [List.set_append_right _ _ (Nat.le_refl _), Nat.sub_self, List.replicate_succ,
          List.set_cons_zero, List.append_assoc]
        rfl
      have done := ih (front ++ [pinned sites mark])
        (by rw [List.length_append]; exact others)
        (by rw [List.length_append, List.length_singleton]; omega)
      rw [pinnedAll, List.foldl_cons, List.length_cons, place, filled]
      rw [pinnedAll] at done
      rw [done, List.map_cons, List.append_assoc]
      rfl

theorem exists_map_some {α : Type} (found : List (Option α))
    (every : ∀ one ∈ found, one.isSome = true) : ∃ values : List α, values.map some = found := by
  induction found with
  | nil => exact ⟨[], rfl⟩
  | cons first rest ih =>
      obtain ⟨value, same⟩ := Option.isSome_iff_exists.1 (every first List.mem_cons_self)
      obtain ⟨values, others⟩ := ih fun one listed => every one (List.mem_cons_of_mem _ listed)
      exact ⟨value :: values, by rw [List.map_cons, others, same]⟩

theorem mapM_some {α : Type} (values : List α) :
    (values.map some).mapM (fun value => value) = some values := by
  induction values with
  | nil => rfl
  | cons value values ih =>
      rw [List.map_cons, List.mapM_cons, ih]
      rfl

/-- Where every site is the number of one mark, in order, each gets what its mark says. -/
theorem finishSites_eq (function : UInt32) (body : List Ins)
    (numbered : (marksAll 0 body).map Mark.site = numbers 0 sites.length)
    (few : sites.length ≤ 2 ^ 32)
    (fits : checks = true → (Ins.writeAll body).length < 2 ^ 32) :
    ∃ spans, finishSites checks sites function body = some ⟨function, spans⟩ ∧
      spans.map some = (marksAll 0 body).map (pinned sites) := by
  have count : (marksAll 0 body).length = sites.length := by
    have same := congrArg List.length numbered
    rwa [List.length_map, numbers, List.length_map, List.length_range'] at same
  have known (mark : Mark) (listed : mark ∈ marksAll 0 body) :
      mark.site.toNat < sites.length := by
    have site : mark.site ∈ numbers 0 sites.length :=
      numbered ▸ List.mem_map_of_mem listed
    obtain ⟨number, inside, same⟩ := List.mem_map.1 site
    have below := (List.mem_range'_1.1 inside).2
    rw [← same, toNat_site (by omega)]
    omega
  have walked := walkAll_eq 0 body (List.replicate sites.length none) known
    (fun checked => by have := fits checked; omega)
  have filled := @pinnedAll_numbered sites (marksAll 0 body) [] (by rw [count]; exact numbered)
    (by rw [count]; simpa using few)
  rw [count, List.nil_append, List.nil_append] at filled
  have noticed : ∀ found ∈ (marksAll 0 body).map (pinned sites), found.isSome = true := by
    intro found listed
    obtain ⟨mark, among, rfl⟩ := List.mem_map.1 listed
    rw [pinned, Option.isSome_map, List.getElem?_eq_getElem (known mark among)]
    rfl
  obtain ⟨spans, every⟩ := exists_map_some _ noticed
  refine ⟨spans, ?_, every⟩
  rw [finishSites]
  change (walkAll checks sites body ⟨_, .ofNat 0⟩ >>= _) = _
  rw [walked, filled, ← every]
  simp only [Option.bind_eq_bind, Option.bind_some, mapM_some]

end Walk

end Deed.Codegen
