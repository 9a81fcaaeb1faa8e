import Deed.Codegen.Datum
import Deed.Lowering.Capture

/-!
# What a closure reads of the function around it

A name that a closure captured means inside the body what it meant where the closure was
written.  What is captured is what the walk over the body comes across, and the walk leaves
out what a `with` does, an `old` and an `assert refuses`: a name that is read only there goes
on meaning a slot of the enclosing function, in a function with other slots.
-/

namespace Deed.Lowering

open Deed.Ast (FieldInit Ident MatchArm Param Span)
open Deed.Codegen (Datum)
open Deed.Eval (DefId)
open Deed.Library
open Deed.Mir

/-! ## The names a body says -/

/-- A name in a body, by where it was written. -/
structure Mention where
  span : Span
  /-- Whether a `with`, an `old` or an `assert refuses` is around it. -/
  hidden : Bool
  /-- Whether it only says which field a value is for. -/
  label : Bool

mutual

/-- Every name of an expression, whatever form it is in. -/
def mentions (hidden : Bool) : Ast.Expr → List Mention
  | .ident name => [⟨name.span, hidden, false⟩]
  | .field receiver _ _ => mentions hidden receiver
  | .call callee args _ => mentions hidden callee ++ mentionsAll hidden args
  | .list elements _ => mentionsAll hidden elements
  | .structLit _ fields _ => mentionsFields hidden fields
  | .unary _ operand _ => mentions hidden operand
  | .binary _ lhs rhs _ => mentions hidden lhs ++ mentions hidden rhs
  | .try operand _ => mentions hidden operand
  | .if condition thenBranch elseBranch _ =>
      mentions hidden condition ++ mentionsBlock hidden thenBranch ++
        mentionsMaybe hidden elseBranch
  | .match scrutinee arms _ => mentions hidden scrutinee ++ mentionsArms hidden arms
  | .for _ _ iterable accumulator keep body _ =>
      mentions hidden iterable ++ mentionsAccumulator hidden accumulator ++
        mentionsMaybe hidden keep ++ mentionsBlock hidden body
  | .block inner => mentionsBlock hidden inner
  | .closure _ body _ => mentions hidden body
  | .old expr _ => mentions true expr
  | .with handlers body _ => mentionsAll true handlers ++ mentionsBlock true body
  | .int _ _ | .str _ _ | .bool _ _ | .unit _ | .unchanged _ _ | .error _ => []

def mentionsAll (hidden : Bool) : List Ast.Expr → List Mention
  | [] => []
  | head :: rest => mentions hidden head ++ mentionsAll hidden rest

def mentionsMaybe (hidden : Bool) : Option Ast.Expr → List Mention
  | none => []
  | some inner => mentions hidden inner

def mentionsAccumulator (hidden : Bool) : Option (Ident × Ast.Expr) → List Mention
  | none => []
  | some (_, init) => mentions hidden init

/-- A field without a value is a read of what it is called. -/
def mentionsFields (hidden : Bool) : List FieldInit → List Mention
  | [] => []
  | .mk name value _ :: rest =>
      ⟨name.span, hidden, value.isSome⟩ ::
        (mentionsMaybe hidden value ++ mentionsFields hidden rest)

def mentionsArms (hidden : Bool) : List MatchArm → List Mention
  | [] => []
  | .mk _ body _ :: rest => mentions hidden body ++ mentionsArms hidden rest

def mentionsBlock (hidden : Bool) : Ast.Block → List Mention
  | .mk stmts tail _ => mentionsStmts hidden stmts ++ mentionsMaybe hidden tail

def mentionsStmts (hidden : Bool) : List Ast.Stmt → List Mention
  | [] => []
  | head :: rest => mentionsStmt hidden head ++ mentionsStmts hidden rest

def mentionsStmt (hidden : Bool) : Ast.Stmt → List Mention
  | .let _ _ init _ => mentions hidden init
  | .expr inner => mentions hidden inner
  | .assert condition _ => mentions hidden condition
  | .assign _ value _ => mentions hidden value
  | .return value _ => mentionsMaybe hidden value
  | .refuses subject _ => mentions true subject
  | .abandon _ => []

end

/-- Where the names are that are not hidden. -/
def shown (names : List Mention) : List Span :=
  (names.filter fun mention => !mention.hidden).map Mention.span

theorem shown_append (names more : List Mention) :
    shown (names ++ more) = shown names ++ shown more := by
  rw [shown, List.filter_append, List.map_append]
  rfl

theorem mem_shown {names : List Mention} {span : Span} :
    span ∈ shown names ↔
      ∃ mention ∈ names, mention.hidden = false ∧ mention.span = span := by
  rw [shown, List.mem_map]
  constructor
  · rintro ⟨mention, kept, same⟩
    rcases List.mem_filter.1 kept with ⟨present, visible⟩
    rw [Bool.not_eq_true'] at visible
    exact ⟨mention, present, visible, same⟩
  · rintro ⟨mention, present, visible, same⟩
    exact ⟨mention, List.mem_filter.2 ⟨present, by rw [visible]; rfl⟩, same⟩

/-- Nothing in a hidden place, and everything anywhere else. -/
def unlessHidden (hidden : Bool) (names : List Span) : List Span :=
  if hidden then [] else names

theorem unlessHidden_append (hidden : Bool) (names more : List Span) :
    unlessHidden hidden names ++ unlessHidden hidden more =
      unlessHidden hidden (names ++ more) := by
  cases hidden <;> rfl

theorem unlessHidden_nil (hidden : Bool) : unlessHidden hidden [] = [] := by
  cases hidden <;> rfl

mutual

/-- The walk comes across the names that are not hidden, and across no other. -/
theorem shown_mentions (hidden : Bool) : ∀ e : Ast.Expr,
    shown (mentions hidden e) = unlessHidden hidden (namesIn e)
  | .ident name => by
      rw [mentions, namesIn]
      cases hidden <;> rfl
  | .field receiver _ _ => by rw [mentions, namesIn, shown_mentions hidden receiver]
  | .call callee args _ => by
      rw [mentions, namesIn, shown_append, shown_mentions hidden callee,
        shown_mentionsAll hidden args, unlessHidden_append]
  | .list elements _ => by rw [mentions, namesIn, shown_mentionsAll hidden elements]
  | .structLit _ fields _ => by rw [mentions, namesIn, shown_mentionsFields hidden fields]
  | .unary _ operand _ => by rw [mentions, namesIn, shown_mentions hidden operand]
  | .binary _ lhs rhs _ => by
      rw [mentions, namesIn, shown_append, shown_mentions hidden lhs,
        shown_mentions hidden rhs, unlessHidden_append]
  | .try operand _ => by rw [mentions, namesIn, shown_mentions hidden operand]
  | .if condition thenBranch elseBranch _ => by
      rw [mentions, namesIn, shown_append, shown_append, shown_mentions hidden condition,
        shown_mentionsBlock hidden thenBranch, shown_mentionsMaybe hidden elseBranch,
        unlessHidden_append, unlessHidden_append]
  | .match scrutinee arms _ => by
      rw [mentions, namesIn, shown_append, shown_mentions hidden scrutinee,
        shown_mentionsArms hidden arms, unlessHidden_append]
  | .for _ _ iterable accumulator keep body _ => by
      rw [mentions, namesIn, shown_append, shown_append, shown_append,
        shown_mentions hidden iterable, shown_mentionsAccumulator hidden accumulator,
        shown_mentionsMaybe hidden keep, shown_mentionsBlock hidden body,
        unlessHidden_append, unlessHidden_append, unlessHidden_append]
  | .block inner => by rw [mentions, namesIn, shown_mentionsBlock hidden inner]
  | .closure _ body _ => by rw [mentions, namesIn, shown_mentions hidden body]
  | .old inner _ => by
      rw [mentions, namesIn, shown_mentions true inner, unlessHidden_nil]
      rfl
  | .with handlers body _ => by
      rw [mentions, namesIn, shown_append, shown_mentionsAll true handlers,
        shown_mentionsBlock true body, unlessHidden_nil]
      rfl
  | .int _ _ => by rw [mentions, namesIn, unlessHidden_nil]; rfl
  | .str _ _ => by rw [mentions, namesIn, unlessHidden_nil]; rfl
  | .bool _ _ => by rw [mentions, namesIn, unlessHidden_nil]; rfl
  | .unit _ => by rw [mentions, namesIn, unlessHidden_nil]; rfl
  | .unchanged _ _ => by rw [mentions, namesIn, unlessHidden_nil]; rfl
  | .error _ => by rw [mentions, namesIn, unlessHidden_nil]; rfl

theorem shown_mentionsAll (hidden : Bool) : ∀ exprs : List Ast.Expr,
    shown (mentionsAll hidden exprs) = unlessHidden hidden (namesInAll exprs)
  | [] => by rw [mentionsAll, namesInAll, unlessHidden_nil]; rfl
  | head :: rest => by
      rw [mentionsAll, namesInAll, shown_append, shown_mentions hidden head,
        shown_mentionsAll hidden rest, unlessHidden_append]

theorem shown_mentionsMaybe (hidden : Bool) : ∀ inner : Option Ast.Expr,
    shown (mentionsMaybe hidden inner) = unlessHidden hidden (namesInMaybe inner)
  | none => by rw [mentionsMaybe, namesInMaybe, unlessHidden_nil]; rfl
  | some inner => by rw [mentionsMaybe, namesInMaybe, shown_mentions hidden inner]

theorem shown_mentionsAccumulator (hidden : Bool) :
    ∀ accumulator : Option (Ident × Ast.Expr),
    shown (mentionsAccumulator hidden accumulator) =
      unlessHidden hidden (namesInAccumulator accumulator)
  | none => by rw [mentionsAccumulator, namesInAccumulator, unlessHidden_nil]; rfl
  | some (_, init) => by
      rw [mentionsAccumulator, namesInAccumulator, shown_mentions hidden init]

theorem shown_mentionsFields (hidden : Bool) : ∀ fields : List FieldInit,
    shown (mentionsFields hidden fields) = unlessHidden hidden (namesInFields fields)
  | [] => by rw [mentionsFields, namesInFields, unlessHidden_nil]; rfl
  | .mk name value _ :: rest => by
      have inside := shown_append (mentionsMaybe hidden value) (mentionsFields hidden rest)
      rw [shown_mentionsMaybe hidden value, shown_mentionsFields hidden rest,
        unlessHidden_append] at inside
      rw [mentionsFields, namesInFields]
      cases hidden with
      | true => exact inside
      | false => exact congrArg (name.span :: ·) inside

theorem shown_mentionsArms (hidden : Bool) : ∀ arms : List MatchArm,
    shown (mentionsArms hidden arms) = unlessHidden hidden (namesInArms arms)
  | [] => by rw [mentionsArms, namesInArms, unlessHidden_nil]; rfl
  | .mk _ body _ :: rest => by
      rw [mentionsArms, namesInArms, shown_append, shown_mentions hidden body,
        shown_mentionsArms hidden rest, unlessHidden_append]

theorem shown_mentionsBlock (hidden : Bool) : ∀ block : Ast.Block,
    shown (mentionsBlock hidden block) = unlessHidden hidden (namesInBlock block)
  | .mk stmts tail _ => by
      rw [mentionsBlock, namesInBlock, shown_append, shown_mentionsStmts hidden stmts,
        shown_mentionsMaybe hidden tail, unlessHidden_append]

theorem shown_mentionsStmts (hidden : Bool) : ∀ stmts : List Ast.Stmt,
    shown (mentionsStmts hidden stmts) = unlessHidden hidden (namesInStmts stmts)
  | [] => by rw [mentionsStmts, namesInStmts, unlessHidden_nil]; rfl
  | head :: rest => by
      rw [mentionsStmts, namesInStmts, shown_append, shown_mentionsStmt hidden head,
        shown_mentionsStmts hidden rest, unlessHidden_append]

theorem shown_mentionsStmt (hidden : Bool) : ∀ stmt : Ast.Stmt,
    shown (mentionsStmt hidden stmt) = unlessHidden hidden (namesInStmt stmt)
  | .let _ _ init _ => by rw [mentionsStmt, namesInStmt, shown_mentions hidden init]
  | .expr inner => by rw [mentionsStmt, namesInStmt, shown_mentions hidden inner]
  | .assert condition _ => by
      rw [mentionsStmt, namesInStmt, shown_mentions hidden condition]
  | .assign _ value _ => by rw [mentionsStmt, namesInStmt, shown_mentions hidden value]
  | .return value _ => by rw [mentionsStmt, namesInStmt, shown_mentionsMaybe hidden value]
  | .refuses subject _ => by
      rw [mentionsStmt, namesInStmt, shown_mentions true subject, unlessHidden_nil]
      rfl
  | .abandon _ => by rw [mentionsStmt, namesInStmt, unlessHidden_nil]; rfl

end

theorem namesIn_eq (body : Ast.Expr) : namesIn body = shown (mentions false body) :=
  (shown_mentions false body).symm

/-! ## What is captured -/

section Captured

variable (resolution : Span → Option DefId) (slots : List (DefId × Local))

/-- Each name is the slot it has, and is there once. -/
structure Held (found : List (DefId × Local)) : Prop where
  slot : ∀ entry ∈ found, Assoc.find? slots entry.1 = some entry.2
  once : Assoc.Distinct found

variable {resolution slots}

theorem Held.capture {found : List (DefId × Local)} (held : Held slots found) (name : Span) :
    Held slots (capture resolution slots found name) := by
  unfold Lowering.capture
  split
  · exact held
  · next definition _ =>
    split
    · exact held
    · next slot there =>
      split
      · exact held
      · next fresh =>
        have absent : definition ∉ found.map Prod.fst := by
          intro present
          rcases List.mem_map.1 present with ⟨entry, listed, same⟩
          exact fresh (List.any_eq_true.2 ⟨entry, listed, beq_iff_eq.2 same⟩)
        constructor
        · intro entry listed
          rcases List.mem_append.1 listed with before | new
          · exact held.slot entry before
          · rw [List.mem_singleton.1 new]
            exact there
        · rw [Assoc.Distinct, List.map_append]
          refine List.nodup_append.2 ⟨held.once, List.nodup_singleton _, ?_⟩
          rintro known present other new rfl
          rw [List.map_singleton, List.mem_singleton] at new
          exact absent (Eq.subst new present)

/-- A name is captured from the first mention of it on. -/
theorem mem_capture {found : List (DefId × Local)} {name : Span} {definition : DefId} :
    definition ∈ (capture resolution slots found name).map Prod.fst ↔
      definition ∈ found.map Prod.fst ∨
        (resolution name = some definition ∧ (Assoc.find? slots definition).isSome = true) := by
  unfold Lowering.capture
  split
  · next unresolved => simp [unresolved]
  · next resolved known =>
    split
    · next absent =>
      constructor
      · exact Or.inl
      · rintro (before | ⟨same, present⟩)
        · exact before
        · cases known.symm.trans same
          rw [absent] at present
          exact absurd present Bool.false_ne_true
    · next slot there =>
      split
      · next again =>
        constructor
        · exact Or.inl
        · rintro (before | ⟨same, -⟩)
          · exact before
          · cases known.symm.trans same
            rcases List.any_eq_true.1 again with ⟨entry, listed, equal⟩
            exact List.mem_map.2 ⟨entry, listed, beq_iff_eq.1 equal⟩
      · rw [List.map_append, List.mem_append, List.map_singleton, List.mem_singleton]
        constructor
        · rintro (before | rfl)
          · exact Or.inl before
          · exact Or.inr ⟨known, by rw [there]; rfl⟩
        · rintro (before | ⟨same, -⟩)
          · exact Or.inl before
          · exact Or.inr (Option.some.inj (same.symm.trans known))

theorem held_foldl (names : List Span) : ∀ found : List (DefId × Local), Held slots found →
    Held slots (names.foldl (capture resolution slots) found) := by
  induction names with
  | nil => exact fun _ held => held
  | cons name rest ih => exact fun found held => ih _ (held.capture name)

theorem mem_foldl_capture {definition : DefId} (names : List Span) :
    ∀ found : List (DefId × Local),
    definition ∈ (names.foldl (capture resolution slots) found).map Prod.fst ↔
      definition ∈ found.map Prod.fst ∨
        ∃ name ∈ names, resolution name = some definition ∧
          (Assoc.find? slots definition).isSome = true := by
  induction names with
  | nil => intro found; simp
  | cons name rest ih =>
      intro found
      rw [List.foldl_cons, ih, mem_capture, or_assoc, List.exists_mem_cons_iff]

variable (resolution slots) in
theorem captured_held (body : Ast.Expr) : Held slots (captured resolution slots body) :=
  held_foldl _ _ ⟨fun _ absent => absurd absent List.not_mem_nil, List.nodup_nil⟩

/-- What is captured is what has a slot and is named where the walk goes. -/
theorem mem_captured {body : Ast.Expr} {definition : DefId} {slot : Local}
    (there : Assoc.find? slots definition = some slot) :
    definition ∈ (captured resolution slots body).map Prod.fst ↔
      ∃ mention ∈ mentions false body, mention.hidden = false ∧
        resolution mention.span = some definition := by
  rw [captured, mem_foldl_capture, namesIn_eq]
  constructor
  · rintro (absent | ⟨name, seen, resolved, -⟩)
    · exact absurd absent List.not_mem_nil
    · rcases mem_shown.1 seen with ⟨mention, present, visible, rfl⟩
      exact ⟨mention, present, visible, resolved⟩
  · rintro ⟨mention, present, visible, resolved⟩
    exact Or.inr ⟨_, mem_shown.2 ⟨mention, present, visible, rfl⟩, resolved, by rw [there]; rfl⟩

end Captured

/-! ## What the lifted body starts with -/

/-- What each slot of a function holds, where something was put into it. -/
abbrev Frame : Type := Local → Option Datum

/-- A field of a variant. -/
def partOf (variant field : Nat) : Datum → Option Datum
  | .made there fields => if variant = there then fields[field]? else none
  | _ => none

mutual

/-- What reading slots and fields, and building from them, comes to. -/
def read (frame : Frame) : Expr → Option Datum
  | .local_ slot => frame slot
  | .int value => some (.int value.toInt)
  | .make _ variant fields => (readAll frame fields).map (Datum.made variant)
  | .field value _ variant field => (read frame value).bind (partOf variant field)
  | _ => none

def readAll (frame : Frame) : List Expr → Option (List Datum)
  | [] => some []
  | head :: rest => (read frame head).bind fun datum => (readAll frame rest).map (datum :: ·)

end

/-- What slots hold after some assignments. -/
def assign : List Stmt → Frame → Option Frame
  | [], frame => some frame
  | .assign slot value :: rest, frame =>
      (read frame value).bind fun datum => assign rest (Function.update frame slot (some datum))
  | _ :: _, _ => none

/-- The reads out of an environment into the slots from one on. -/
def heldReads (shape : LayoutId) : Local → Nat → List (DefId × Local) → List Stmt
  | _, _, [] => []
  | slot, position, _ :: rest =>
      .assign slot (.field (.local_ 0) shape 0 (position + 1)) ::
        heldReads shape (slot + 1) (position + 1) rest

/-- The slots of what was captured, from one on. -/
def heldSlots (slots : List (DefId × Local)) : Local → List (DefId × Local) →
    List (DefId × Local)
  | _, [] => slots
  | slot, (definition, _) :: rest =>
      heldSlots (Assoc.insert slots definition slot) (slot + 1) rest

theorem readHeld_run {More : Type} (shape : LayoutId) (held : List (DefId × Local)) :
    ∀ (position : Nat) (before : Lowering (Lifting More)), ∃ after,
      readHeld shape position held before =
        some (.ok (heldReads shape before.locals.length position held), after) ∧
      after.slots = heldSlots before.slots before.locals.length held := by
  induction held with
  | nil => exact fun position before => ⟨before, rfl, rfl⟩
  | cons entry rest ih =>
      intro position before
      rcases ih (position + 1)
        { before with
          locals := before.locals ++ [fieldTy before.rest.shapes shape (position + 1)]
          slots := Assoc.insert before.slots entry.1 before.locals.length } with
        ⟨after, ran, slots⟩
      rw [List.length_append, List.length_singleton] at ran slots
      exact ⟨after, Action.run_bind_ok ran, slots⟩

theorem find?_heldSlots_ne {definition : DefId} (held : List (DefId × Local))
    (absent : definition ∉ held.map Prod.fst) :
    ∀ (slots : List (DefId × Local)) (slot : Local),
    Assoc.find? (heldSlots slots slot held) definition = Assoc.find? slots definition := by
  induction held with
  | nil => exact fun _ _ => rfl
  | cons entry rest ih =>
      intro slots slot
      rw [List.map_cons, List.mem_cons, not_or] at absent
      rw [heldSlots, ih absent.2, Assoc.find?_insert_ne (Ne.symm absent.1)]

/-- A captured name is the slot that its field is read into. -/
theorem find?_heldSlots (held : List (DefId × Local)) :
    Assoc.Distinct held → ∀ (slots : List (DefId × Local)) (slot place : Local)
      (entry : DefId × Local), held[place]? = some entry →
      Assoc.find? (heldSlots slots slot held) entry.1 = some (slot + place) := by
  induction held with
  | nil => exact fun _ _ _ _ _ absent => absurd absent.symm (Option.some_ne_none _)
  | cons first rest ih =>
      intro once slots slot place entry there
      rw [Assoc.Distinct, List.map_cons, List.nodup_cons] at once
      cases place with
      | zero =>
          cases there
          rw [heldSlots, find?_heldSlots_ne rest once.1, Assoc.find?_insert_self]
          rfl
      | succ place =>
          rw [heldSlots, ih once.2 _ _ place entry there, Nat.add_assoc, Nat.add_comm 1]

/-- The reads put each field of the environment into its slot, and nothing anywhere else. -/
theorem assign_heldReads (shape : LayoutId) {fields : List Datum}
    (held : List (DefId × Local)) :
    ∀ (slot position : Nat) (frame : Frame), 0 < slot →
      frame 0 = some (.made 0 fields) → position + held.length < fields.length →
      ∃ later, assign (heldReads shape slot position held) frame = some later ∧
        (∀ other < slot, later other = frame other) ∧
        ∀ place < held.length, later (slot + place) = fields[position + 1 + place]? := by
  induction held with
  | nil =>
      intro slot position frame _ _ _
      exact ⟨frame, rfl, fun _ _ => rfl, fun place small => absurd small (Nat.not_lt_zero _)⟩
  | cons first rest ih =>
      intro slot position frame inside carried long
      rw [List.length_cons] at long
      have there : position + 1 < fields.length := by omega
      have first : read frame (.field (.local_ 0) shape 0 (position + 1)) =
          some (fields.get ⟨position + 1, there⟩) := by
        rw [read, read, carried, Option.bind_some, partOf, if_pos rfl]
        exact List.getElem?_eq_getElem there
      have keeps : Function.update frame slot (some (fields.get ⟨position + 1, there⟩)) 0 =
          some (.made 0 fields) := by
        rw [Function.update_of_ne (Nat.ne_of_lt inside), carried]
      rcases ih (slot + 1) (position + 1) _ (Nat.succ_pos _) keeps (by omega) with
        ⟨later, ran, below, above⟩
      refine ⟨later, ?_, ?_, ?_⟩
      · rw [heldReads, assign, first]
        exact ran
      · intro other small
        rw [below other (Nat.lt_succ_of_lt small), Function.update_of_ne (Nat.ne_of_lt small)]
      · intro place small
        cases place with
        | zero =>
            rw [Nat.add_zero, below slot (Nat.lt_succ_self _), Function.update_self]
            exact (List.getElem?_eq_getElem there).symm
        | succ place =>
            have same := above place (Nat.lt_of_succ_lt_succ small)
            rw [Nat.add_right_comm slot 1 place] at same
            rw [← Nat.add_assoc slot, same]
            congr 1
            omega

/-- Reading slots one after the other. -/
theorem readAll_locals {frame : Frame} (held : List (DefId × Local)) : ∀ data : List Datum,
    readAll frame (held.map fun entry => .local_ entry.2) = some data →
      data.length = held.length ∧
      ∀ (place : Nat) (entry : DefId × Local), held[place]? = some entry →
        data[place]? = frame entry.2 := by
  induction held with
  | nil =>
      intro data ran
      cases ran
      exact ⟨rfl, fun _ _ absent => absurd absent.symm (Option.some_ne_none _)⟩
  | cons first rest ih =>
      intro data ran
      rw [List.map_cons, readAll, read] at ran
      rcases Option.bind_eq_some_iff.1 ran with ⟨datum, head, tail⟩
      rcases Option.map_eq_some_iff.1 tail with ⟨more, followed, rfl⟩
      rcases ih more followed with ⟨long, reads⟩
      refine ⟨by rw [List.length_cons, List.length_cons, long], ?_⟩
      intro place entry there
      cases place with
      | zero =>
          cases there
          exact head.symm
      | succ place => exact reads place entry there

/-! ## What a closure reads -/

/-- The value of a closure carries what a slot held where the closure was written to the
slot that the name has in the body. -/
def Arrives (value : Expr) (reads : List Stmt) (slots : List (DefId × Local))
    (definition : DefId) (outer : Local) : Prop :=
  ∀ (frame callee : Frame) (environment : Datum), read frame value = some environment →
    callee 0 = some environment →
    ∃ slot later, Assoc.find? slots definition = some slot ∧
      assign reads callee = some later ∧ later slot = frame outer

/-- Whatever is captured arrives. -/
theorem arrives_of_held {held inner slots : List (DefId × Local)} {shape index first : Nat}
    (once : Assoc.Distinct held) (afterParams : 0 < first) (position : Nat)
    {entry : DefId × Local} (there : held[position]? = some entry)
    (tables : slots = heldSlots inner first held) :
    Arrives (.make shape 0 (.int (.ofNat index) :: held.map fun entry => .local_ entry.2))
      (heldReads shape first 0 held) slots entry.1 entry.2 := by
  intro frame callee environment built given
  rw [read, readAll, read, Option.bind_some, Option.map_map] at built
  rcases Option.map_eq_some_iff.1 built with ⟨data, gathered, rfl⟩
  rcases readAll_locals held data gathered with ⟨long, reads⟩
  rcases assign_heldReads shape held first 0 callee afterParams given
    (by rw [List.length_cons, long]; omega) with ⟨later, ran, -, above⟩
  refine ⟨first + position, later, ?_, ran, ?_⟩
  · rw [tables]
    exact find?_heldSlots held once _ _ _ _ there
  · have inside : position < held.length := (List.getElem?_eq_some_iff.1 there).1
    rw [above position inside, Nat.zero_add, Nat.add_comm 1, List.getElem?_cons_succ]
    exact reads position entry there

section Closure

variable {More : Type} (resolution : Span → Option DefId) (declared : Nat)

/-- A read of a slot of the enclosing function. -/
structure Outer (slots : List (DefId × Local)) (mention : Mention) (definition : DefId)
    (slot : Local) : Prop where
  read : mention.label = false
  resolved : resolution mention.span = some definition
  slot : Assoc.find? slots definition = some slot

/-- Every name that a body reads of the function around it is captured, and means in the
body what it meant there. -/
def Captures (slots : List (DefId × Local)) (body : Ast.Expr) (value : Expr)
    (reads : List Stmt) (inner : List (DefId × Local)) : Prop :=
  ∀ mention ∈ mentions false body, ∀ definition slot,
    Outer resolution slots mention definition slot →
    definition ∈ (captured resolution slots body).map Prod.fst ∧
      Arrives value reads inner definition slot

/-- Whatever is read in a `with`, an `old` or an `assert refuses` of the function around a
body is named somewhere else in the body as well. -/
def NamedOutside (slots : List (DefId × Local)) (body : Ast.Expr) : Prop :=
  ∀ mention ∈ mentions false body, mention.hidden = true → ∀ definition slot,
    Outer resolution slots mention definition slot →
    ∃ other ∈ mentions false body, other.hidden = false ∧
      resolution other.span = some definition

/-- The function that the value of a closure is the number of starts with some statements
and goes on with the code of the body. -/
def Carries (declared : Nat) (after : Lowering (Lifting More)) (value : Expr)
    (reads : List Stmt) (lowered : Expr) : Prop :=
  ∃ shape place held, value = .make shape 0 (.int (.ofNat (declared + place)) :: held) ∧
    after.rest.lifted[place]?.map Function.body = some (.mk reads lowered)

variable (written : Ast.Ty → Lower (Lifting More) Ty) (tyAt : Span → Lower (Lifting More) Ty)
  (expr : Ast.Expr → Lower (Lifting More) Expr)

variable {resolution declared written tyAt expr} in
theorem fill_ok {place : Nat} {locals : List Ty} {body : Block}
    {before after : Lowering (Lifting More)} {done : Unit}
    (ran : fill place locals body before = some (.ok done, after)) :
    after.rest.lifted[place]?.map Function.body = some body := by
  rw [fill, Action.run_look_bind] at ran
  cases there : before.rest.lifted[place]? with
  | none =>
      simp only [there] at ran
      exact absurd ran.symm (Option.some_ne_none _)
  | some function =>
      simp only [there] at ran
      rcases Prod.mk.inj (Option.some.inj ran) with ⟨-, rfl⟩
      show (before.rest.lifted.set place _)[place]?.map Function.body = some body
      rw [List.getElem?_set_self (List.getElem?_eq_some_iff.1 there).1]
      rfl

variable {resolution declared written tyAt expr} in
/-- The body of a closure is lowered in tables in which everything captured arrives. -/
theorem closure_lifts {params : List Param} {body : Ast.Expr} {span : Span}
    {before after : Lowering (Lifting More)} {value : Expr}
    (ran : closure resolution declared written tyAt expr params body span before =
      some (.ok value, after)) :
    ∃ inner reads lowered done, expr body inner = some (.ok lowered, done) ∧
      Carries declared after value reads lowered ∧
      ∀ entry ∈ captured resolution before.slots body,
        Arrives value reads inner.slots entry.1 entry.2 := by
  rw [closure, Action.run_look_bind, Action.run_change_bind] at ran
  rcases Action.ok_of_bind ran with ⟨tys, typed, paramsRan, ran⟩
  rcases Action.ok_of_bind ran with ⟨ret, outer, retRan, ran⟩
  rw [Action.run_look_bind, Action.run_change_bind] at ran
  rcases Action.ok_of_bind ran with ⟨reads, inner, readsRan, ran⟩
  rcases Action.ok_of_bind ran with ⟨lowered, done, bodyRan, ran⟩
  rw [Action.run_look_bind, Action.run_change_bind] at ran
  rcases Action.ok_of_bind ran with ⟨filled, last, fillRan, ran⟩
  rw [Action.run_change_bind] at ran
  rcases Prod.mk.inj (Option.some.inj ran) with ⟨made, rfl⟩
  cases Except.ok.inj made
  rcases readHeld_run before.rest.shapes.length (captured resolution before.slots body) 0 _ with
    ⟨inner', readsRan', slots⟩
  rcases Prod.mk.inj (Option.some.inj (readsRan'.symm.trans readsRan)) with ⟨same, rfl⟩
  cases Except.ok.inj same
  refine ⟨inner', heldReads before.rest.shapes.length (tys.length + 1) 0
    (captured resolution before.slots body), lowered, done, bodyRan, ?_, ?_⟩
  · refine ⟨_, outer.rest.lifted.length, _, rfl, ?_⟩
    have body := fill_ok fillRan
    rw [Nat.add_sub_cancel_left] at body
    exact body
  · intro entry listed
    rcases List.getElem?_of_mem listed with ⟨position, there⟩
    exact arrives_of_held (captured_held resolution before.slots body).once
      (Nat.succ_pos _) position there slots

/-- A closure carries every name that it reads of the function around it exactly when every
one that it reads in a `with`, an `old` or an `assert refuses` is named somewhere else in it. -/
theorem closure_captures_iff {params : List Param} {body : Ast.Expr} {span : Span}
    {before after : Lowering (Lifting More)} {value : Expr}
    (ran : closure resolution declared written tyAt expr params body span before =
      some (.ok value, after)) :
    ∃ inner reads lowered done, expr body inner = some (.ok lowered, done) ∧
      Carries declared after value reads lowered ∧
      (Captures resolution before.slots body value reads inner.slots ↔
        NamedOutside resolution before.slots body) := by
  rcases closure_lifts ran with ⟨inner, reads, lowered, done, bodyRan, carries, arrives⟩
  refine ⟨inner, reads, lowered, done, bodyRan, carries, ?_, ?_⟩
  · intro captures mention present hidden definition slot outer
    exact (mem_captured outer.slot).1 (captures mention present definition slot outer).1
  · intro named mention present definition slot outer
    have caught : definition ∈ (captured resolution before.slots body).map Prod.fst := by
      cases covered : mention.hidden with
      | false => exact (mem_captured outer.slot).2 ⟨mention, present, covered, outer.resolved⟩
      | true => exact (mem_captured outer.slot).2 (named mention present covered _ _ outer)
    refine ⟨caught, ?_⟩
    rcases List.mem_map.1 caught with ⟨entry, listed, rfl⟩
    have there := (captured_held resolution before.slots body).slot entry listed
    rw [Option.some.inj (outer.slot.symm.trans there)]
    exact arrives entry listed

end Closure

/-! ## A name that only a `with` reads -/

/-- Where the only name is written that is a slot of the function around. -/
def countAt : Span := ⟨69, 70⟩

/-- What name resolution says about it. -/
def countNames (span : Span) : Option DefId := if span = countAt then some 0 else none

/-- A function of one parameter, in a program with a handler that counts. -/
def counting : Lowering (Lifting Unit) where
  locals := [.int]
  slots := [(0, 0)]
  rest := ⟨[⟨"InMemory", [⟨"InMemory", [⟨"count", .int⟩]⟩], false⟩], [], .int, ()⟩

/-- `with InMemory { count: n } { Count.next() }`. -/
def countBody : Ast.Expr :=
  .with [.structLit (.ident ⟨"InMemory", ⟨51, 59⟩⟩)
      [.mk ⟨"count", ⟨62, 67⟩⟩ (some (.ident ⟨"n", countAt⟩)) ⟨62, 70⟩] ⟨51, 72⟩]
    (.mk [] (some (.call (.field (.ident ⟨"Count", ⟨75, 80⟩⟩) ⟨"next", ⟨81, 85⟩⟩ ⟨75, 85⟩) []
      ⟨75, 87⟩)) ⟨73, 89⟩) ⟨46, 89⟩

/-- What lowering does with a name, and with that body: the state of the handler starts as
what the name stands for. -/
def countExpr : Ast.Expr → Lower (Lifting Unit) Expr
  | .ident name => readCount name.span
  | _ => do
      let start ← readCount countAt
      pure (.install 0 (.make 0 0 [start]) [1] (.of (.perform 0 0 [] .int)) .int)
where
  readCount (span : Span) : Lower (Lifting Unit) Expr := do
    let slots ← Action.look fun lowering => lowering.slots
    match (countNames span).bind (Assoc.find? slots) with
    | some slot => pure (.local_ slot)
    | none => Action.signal ⟨"a name nothing resolved", span⟩

/-- `|| n` captures what it reads. -/
theorem closure_captures_count : ∃ value after inner reads lowered done,
    closure countNames 1 (fun _ => pure .int) (fun _ => pure .int) countExpr []
      (.ident ⟨"n", countAt⟩) ⟨43, 70⟩ counting = some (.ok value, after) ∧
    countExpr (.ident ⟨"n", countAt⟩) inner = some (.ok lowered, done) ∧
    Carries 1 after value reads lowered ∧
    (Captures countNames counting.slots (.ident ⟨"n", countAt⟩) value reads inner.slots ↔
      NamedOutside countNames counting.slots (.ident ⟨"n", countAt⟩)) := by
  have ends : ∃ value after, closure countNames 1 (fun _ => pure .int) (fun _ => pure .int)
      countExpr [] (.ident ⟨"n", countAt⟩) ⟨43, 70⟩ counting = some (.ok value, after) :=
    ⟨_, _, rfl⟩
  rcases ends with ⟨value, after, ran⟩
  rcases closure_captures_iff countNames 1 _ _ countExpr ran with
    ⟨inner, reads, lowered, done, whole⟩
  exact ⟨value, after, inner, reads, lowered, done, ran, whole⟩

/-- `|| with InMemory { count: n } { Count.next() }` captures nothing, and the handler starts
with the slot that is the environment. -/
theorem closure_misses_count : ∃ value after,
    closure countNames 1 (fun _ => pure .int) (fun _ => pure .int) countExpr []
      countBody ⟨43, 89⟩ counting = some (.ok value, after) ∧
    Carries 1 after value []
      (.install 0 (.make 0 0 [.local_ 0]) [1] (.of (.perform 0 0 [] .int)) .int) ∧
    ∀ inner, ¬ Captures countNames counting.slots countBody value [] inner := by
  refine ⟨_, _, rfl, ⟨1, 0, [], rfl, rfl⟩, ?_⟩
  intro inner captures
  have missed := captures ⟨countAt, true, false⟩ (by simp [mentions, mentionsAll,
    mentionsBlock, mentionsFields, mentionsMaybe, countBody]) 0 0 ⟨rfl, rfl, rfl⟩
  exact absurd missed.1 (by decide)

end Deed.Lowering
