import Deed.Mir.Program
import Deed.Runtime.Texts

/-!
# Pieces of code over values in memory

What the comparison and the fold of `crates/deed-codegen/src/equality.rs` and `hashing.rs`
share: where a field is, and the choice between the variants of a layout.  `Does` says
what a piece of code does that leaves memory alone, so that what a sequence does follows
from what its parts do.
-/

namespace Deed.Codegen

open Deed.Wasm Deed.Mir Deed.Runtime

/-- How a value of a type travels; one of type `Unit` does not. -/
def valType : Ty → Option ValType
  | .unit => none
  | .bool => some .i32
  | _ => some .i64

/-- Where a field starts, after the tag if there is one. -/
def fieldOffset (tagged : Bool) (field : Nat) : UInt32 :=
  .ofNat (((if tagged then 1 else 0) + field) * WORD)

/-- The call of the function that a table numbers for a shape. -/
def callOf (table : List (Ty × UInt32)) (ty : Ty) : Option Ins :=
  (table.find? fun entry => entry.1 == ty).map fun entry => .call entry.2

/-- A shape of a table has a call, to a function that the table has for it. -/
theorem callOf_mem {table : List (Ty × UInt32)} {ty : Ty}
    (present : ty ∈ table.map Prod.fst) :
    ∃ index, callOf table ty = some (.call index) ∧ (ty, index) ∈ table := by
  rcases List.mem_map.1 present with ⟨entry, listed, same⟩
  rcases found : table.find? fun entry => entry.1 == ty with _ | ⟨shape, index⟩
  · have missing := List.find?_eq_none.1 found entry listed
    exact absurd (beq_iff_eq.2 same) missing
  · have matched := List.find?_some found
    have named : shape = ty := beq_iff_eq.1 matched
    have held := List.mem_of_find?_eq_some found
    rw [named] at held
    exact ⟨index, by rw [callOf, found]; rfl, held⟩

theorem mem_of_callOf {table : List (Ty × UInt32)} {ty : Ty} {call : Ins}
    (found : callOf table ty = some call) : ∃ entry ∈ table, call = .call entry.2 := by
  rcases Option.map_eq_some_iff.1 found with ⟨entry, listed, rfl⟩
  exact ⟨entry, List.mem_of_find?_eq_some listed, rfl⟩

/-- Whether the tag of the value whose address is in `slot` is an index. -/
def isVariant (slot : UInt32) (index : Nat) : List Ins :=
  [.localGet slot, .i64Load 0, .i64Const (.ofNat index), .i64Eq]

/-- The code for each variant of a layout, from an index on, over the value whose address
is in `slot`: the tag decides which of them runs, where there is one. -/
def arms (slot : UInt32) (tagged : Bool) : List (List Ins) → Nat → List Ins
  | [], _ => []
  | arm :: rest, index =>
      (if tagged then isVariant slot index ++ [.if_ none arm []] else arm) ++ arms slot tagged rest (index + 1)

mutual

/-- The functions that some code calls by their index. -/
def calls : List Ins → List UInt32
  | [] => []
  | first :: rest => callsOf first ++ calls rest

def callsOf : Ins → List UInt32
  | .call index => [index]
  | .marked _ inner => callsOf inner
  | .block _ body => calls body
  | .loop _ body => calls body
  | .if_ _ then_ otherwise => calls then_ ++ calls otherwise
  | _ => []

end

@[simp]
theorem calls_append (first second : List Ins) :
    calls (first ++ second) = calls first ++ calls second := by
  induction first with
  | nil => rfl
  | cons ins first ih => rw [List.cons_append, calls, calls, ih, List.append_assoc]

theorem calls_arms {slot : UInt32} {tagged : Bool} {bodies : List (List Ins)} {index : Nat}
    {called : UInt32} (found : called ∈ calls (arms slot tagged bodies index)) :
    ∃ body ∈ bodies, called ∈ calls body := by
  induction bodies generalizing index with
  | nil => exact absurd found List.not_mem_nil
  | cons arm bodies ih =>
      rw [arms, calls_append, List.mem_append] at found
      rcases found with here | later
      · refine ⟨arm, List.mem_cons_self, ?_⟩
        cases tagged with
        | true => simpa [isVariant, calls, callsOf] using here
        | false => exact here
      · rcases ih later with ⟨body, present, inside⟩
        exact ⟨body, List.mem_cons_of_mem _ present, inside⟩

/-- The memory and the locals that a piece of code starts with. -/
structure Before where
  memory : Memory
  locals : List Value

/-- A piece of code either goes on, with locals that `arrives` accepts and everything else
as it was, or ends the function as `returns` says. -/
def Does (engine : Engine) (before : Before) (code : List Ins)
    (arrives : List Value → Prop) (returns : Machine → Prop) : Prop :=
  ∀ (rest : List Ins) (stack : List Value) (post : Outcome → Prop),
    (∀ locals, arrives locals → Runs engine rest ⟨before.memory, locals, stack⟩ post) →
    (∀ machine, returns machine → post (.returned machine)) →
    Runs engine (code ++ rest) ⟨before.memory, before.locals, stack⟩ post

section Does

variable {engine : Engine} {memory : Memory} {locals : List Value}
  {first second : List Ins} {arrives later : List Value → Prop}
  {returns : Machine → Prop}

theorem Does.nil (arrived : arrives locals) :
    Does engine ⟨memory, locals⟩ [] arrives returns := by
  intro rest stack post goes ends
  exact goes locals arrived

theorem Does.append (does : Does engine ⟨memory, locals⟩ first arrives returns)
    (next : ∀ locals, arrives locals →
      Does engine ⟨memory, locals⟩ second later returns) :
    Does engine ⟨memory, locals⟩ (first ++ second) later returns := by
  intro rest stack post goes ends
  rw [List.append_assoc]
  apply does _ _ _ _ ends
  intro locals arrived
  exact next locals arrived rest stack post goes ends

theorem Does.mono {arrives' : List Value → Prop} {returns' : Machine → Prop}
    (does : Does engine ⟨memory, locals⟩ first arrives returns)
    (goes : ∀ locals, arrives locals → arrives' locals)
    (ends : ∀ machine, returns machine → returns' machine) :
    Does engine ⟨memory, locals⟩ first arrives' returns' := by
  intro rest stack post goes' ends'
  exact does rest stack post (fun locals arrived => goes' locals (goes locals arrived))
    (fun machine ended => ends' machine (ends machine ended))

/-- An `if` whose condition is known does what the arm it takes does. -/
theorem Does.if_ {condition : List Ins} {holds : Prop} [Decidable holds] {then_ : List Ins}
    (tests : ∀ (rest : List Ins) (stack : List Value) (post : Outcome → Prop),
      Runs engine rest ⟨memory, locals, boolean holds :: stack⟩ post →
      Runs engine (condition ++ rest) ⟨memory, locals, stack⟩ post)
    (taken : holds → Does engine ⟨memory, locals⟩ then_ arrives returns)
    (passed : ¬ holds → arrives locals) :
    Does engine ⟨memory, locals⟩ (condition ++ [.if_ none then_ []]) arrives returns := by
  intro rest stack post goes ends
  rw [List.append_assoc]
  apply tests
  rw [List.singleton_append, runs_if]
  by_cases holds
  · next yes =>
      rw [if_pos yes, ← List.append_nil then_]
      apply taken yes
      · intro locals arrived
        rw [runs_nil, leave_normal, then_normal]
        exact goes locals arrived
      · exact ends
  · next no =>
      rw [if_neg no, runs_nil, leave_normal, then_normal]
      exact goes locals (passed no)

end Does

/-! ## Choosing a variant -/

section Arms

variable {engine : Engine} {memory : Memory} {locals : List Value}
  {slot : UInt32} {address variant : Nat} {bodies : List (List Ins)}
  {arrives : List Value → Prop} {returns : Machine → Prop}

theorem runs_isVariant {index : Nat} {rest : List Ins} {stack : List Value}
    {post : Outcome → Prop}
    (held : locals[slot.toNat]? = some (word32 address)) (small : address < 2 ^ 32)
    (tag : memory.read address = some (variant : Int)) (fits : Fits64 variant)
    (counted : index < 2 ^ 63) :
    Runs engine (isVariant slot index ++ rest) ⟨memory, locals, stack⟩ post ↔
      Runs engine rest ⟨memory, locals, boolean (variant = index) :: stack⟩ post := by
  have fits' : Fits64 (index : Int) := by constructor <;> omega
  have same : ((variant : Int) = (index : Int)) ↔ variant = index := Int.ofNat_inj
  simp only [isVariant, List.cons_append, List.nil_append, runs_localGet, held, Option.elim_some,
    runs_i64Load small, UInt32.reduceToNat, Nat.add_zero, tag, runs_i64Const,
    runs_i64Eq fits fits', boolean_congr same]

/-- The variants after the one that is there are passed over. -/
theorem does_arms_above (held : locals[slot.toNat]? = some (word32 address))
    (small : address < 2 ^ 32) (tag : memory.read address = some (variant : Int))
    (fits : Fits64 variant) (index : Nat) (above : variant < index)
    (counted : index + bodies.length ≤ 2 ^ 63) (arrived : arrives locals) :
    Does engine ⟨memory, locals⟩ (arms slot true bodies index) arrives returns := by
  induction bodies generalizing index with
  | nil => exact Does.nil arrived
  | cons arm bodies ih =>
      rw [List.length_cons] at counted
      rw [arms, if_pos rfl]
      have passes : Does engine ⟨memory, locals⟩ (isVariant slot index ++ [.if_ none arm []])
          (fun now => now = locals) returns := by
        apply Does.if_
          (fun rest stack post => (runs_isVariant held small tag fits (by omega)).2)
        · intro same
          exact absurd same (Nat.ne_of_lt above)
        · intro _
          rfl
      apply passes.append
      rintro now rfl
      exact ih (index + 1) (by omega) (by omega)

/-- Of the variants of a tagged layout, the one that is there runs. -/
theorem does_arms_tagged (held : locals[slot.toNat]? = some (word32 address))
    (small : address < 2 ^ 32) (tag : memory.read address = some (variant : Int))
    (fits : Fits64 variant) (index : Nat) (from_ : index ≤ variant) {body : List Ins}
    (found : bodies[variant - index]? = some body)
    (counted : index + bodies.length ≤ 2 ^ 63)
    (stays : ∀ now, arrives now → now[slot.toNat]? = some (word32 address))
    (does : Does engine ⟨memory, locals⟩ body arrives returns) :
    Does engine ⟨memory, locals⟩ (arms slot true bodies index) arrives returns := by
  induction bodies generalizing index with
  | nil => exact absurd found.symm (Option.some_ne_none body)
  | cons arm bodies ih =>
      rw [List.length_cons] at counted
      rw [arms, if_pos rfl]
      by_cases here : variant = index
      · have same : arm = body := by
          rw [here, Nat.sub_self] at found
          exact Option.some.inj found
        have runs : Does engine ⟨memory, locals⟩
            (isVariant slot index ++ [.if_ none arm []]) arrives returns := by
          apply Does.if_
            (fun rest stack post => (runs_isVariant held small tag fits (by omega)).2)
          · intro _
            exact same ▸ does
          · intro apart
            exact absurd here apart
        apply runs.append
        intro now arrived
        exact does_arms_above (stays now arrived) small tag fits (index + 1) (by omega)
          (by omega) arrived
      · have passes : Does engine ⟨memory, locals⟩
            (isVariant slot index ++ [.if_ none arm []]) (fun now => now = locals)
            returns := by
          apply Does.if_
            (fun rest stack post => (runs_isVariant held small tag fits (by omega)).2)
          · intro same
            exact absurd same here
          · intro _
            rfl
        apply passes.append
        rintro now rfl
        have further : variant - index = variant - (index + 1) + 1 := by omega
        rw [further] at found
        exact ih (index + 1) (by omega) found (by omega)

/-- Of the variants of a layout, the one that is there runs. -/
theorem does_arms {layout : Layout} {arm : Variant → List Ins} {held : Variant}
    (counted : layout.variants.length < 2 ^ 63)
    (found : layout.variants[variant]? = some held)
    (at_ : locals[slot.toNat]? = some (word32 address)) (small : address < 2 ^ 32)
    (tag : layout.isTagged = true → memory.read address = some (variant : Int))
    (stays : ∀ now, arrives now → now[slot.toNat]? = some (word32 address))
    (does : Does engine ⟨memory, locals⟩ (arm held) arrives returns) :
    Does engine ⟨memory, locals⟩ (arms slot layout.isTagged (layout.variants.map arm) 0)
      arrives returns := by
  have there : (layout.variants.map arm)[variant]? = some (arm held) := by
    rw [List.getElem?_map, found]
    rfl
  have inside : variant < layout.variants.length := (List.getElem?_eq_some_iff.1 found).1
  cases tagged : layout.isTagged with
  | true =>
      have fits : Fits64 (variant : Int) := by constructor <;> omega
      apply does_arms_tagged at_ small (tag tagged) fits 0 (Nat.zero_le _) there _ stays does
      rw [List.length_map]
      omega
  | false =>
      have one : layout.variants.length ≤ 1 := Nat.not_lt.1 (of_decide_eq_false tagged)
      have only : layout.variants = [held] := by
        rcases length : layout.variants with _ | ⟨first, _ | ⟨second, more⟩⟩
        · rw [length] at inside
          exact absurd inside (Nat.not_lt_zero _)
        · rw [length] at found inside
          have zero : variant = 0 := Nat.lt_one_iff.1 inside
          rw [zero] at found
          rw [Option.some.inj found]
        · rw [length] at one
          exact absurd one (Nat.not_succ_le_zero _ ∘ Nat.le_of_succ_le_succ)
      rw [only, List.map_singleton, arms, arms, List.append_nil, if_neg Bool.false_ne_true]
      exact does

end Arms

end Deed.Codegen
