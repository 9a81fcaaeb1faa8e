import Deed.Ast
import Deed.Lexer.Token

/-!
# Applying fixes

`crates/deed-driver/src/fix.rs`: the edits of the fixes that diagnostics carry, those that
clash with others left out, and what they make of a text.  Positions are bytes of the text.
-/

namespace Deed.Driver.Fixing

open Deed.Lexer (bytes takeBytes dropBytes)

/-- How much a tool should trust a fix. -/
inductive Applicability where
  | machineApplicable | maybeIncorrect
deriving DecidableEq, Repr

/-- A single text replacement. -/
structure SuggestedEdit where
  span : Ast.Span
  replacement : List Char
deriving DecidableEq, Repr

/-- A set of edits that together resolve a diagnostic. -/
structure Fix where
  edits : List SuggestedEdit
  applicability : Applicability
deriving DecidableEq, Repr

/-- A problem, as far as it is about its repair. -/
structure Diagnostic where
  fix : Option Fix
deriving DecidableEq, Repr

/-- The edits worth applying, and how many repairs they came from. -/
structure Repairs where
  edits : List SuggestedEdit
  fixes : Nat
deriving DecidableEq, Repr

/-! ## Collecting -/

/-- Whether two start-sorted spans clash. -/
def overlaps (a b : Ast.Span) : Bool := b.start < a.stop

/-- An edit and the number of the fix that it is of. -/
abbrev Owned := Nat × SuggestedEdit

/-- The order of `(edit.span.start, edit.span.end)`. -/
def SortedBefore (a b : Ast.Span) : Prop :=
  a.start < b.start ∨ a.start = b.start ∧ a.stop ≤ b.stop

instance (a b : Ast.Span) : Decidable (SortedBefore a b) :=
  inferInstanceAs (Decidable (_ ∨ _))

/-- The fixes that are applied without asking. -/
def certain (diagnostics : List Diagnostic) : List Fix :=
  (diagnostics.filterMap Diagnostic.fix).filter (·.applicability = .machineApplicable)

/-- Every edit with its owner. -/
def owned (fixes : List Fix) : List Owned :=
  fixes.zipIdx.flatMap fun fix => fix.1.edits.map fun edit => (fix.2, edit)

/-- A stable sort by start, and by end where two start together. -/
def sortEdits (edits : List Owned) : List Owned :=
  edits.insertionSort fun a b => SortedBefore a.2.span b.2.span

/-- Whether the run ends before an edit: there is none, or the edit before it does not overlap. -/
def runBreaks (edits : List Owned) (i : Nat) : Bool :=
  match edits[i - 1]?, edits[i]? with
  | some before, some after => !overlaps before.2.span after.2.span
  | _, _ => true

/-- The variables of the loop over adjacent edits. -/
structure Walk where
  refused : List Bool
  runStart : Nat

/-- Refuses whoever owns one of some edits. -/
def refuse (refused : List Bool) (run : List Owned) : List Bool :=
  run.foldl (fun refused edit => refused.set edit.1 true) refused

def walkStep (edits : List Owned) (walk : Walk) (i : Nat) : Walk :=
  if runBreaks edits i then
    { refused :=
        if 1 < i - walk.runStart then
          refuse walk.refused ((edits.drop walk.runStart).take (i - walk.runStart))
        else walk.refused
      runStart := i }
  else walk

/-- Which of so many fixes are refused, with every run of edits where each overlaps the next. -/
def refusals (count : Nat) (edits : List Owned) : List Bool :=
  ((List.range' 1 edits.length).foldl (walkStep edits) ⟨List.replicate count false, 0⟩).refused

/-- The edits worth applying, with overlaps dropped. -/
def collect (diagnostics : List Diagnostic) : Repairs :=
  let fixes := certain diagnostics
  let edits := sortEdits (owned fixes)
  let refused := refusals fixes.length edits
  { edits := (edits.filter fun edit => !refused.getD edit.1 false).map Prod.snd
    fixes := refused.count false }

/-! ## Applying -/

def isCharBoundary (text : List Char) (position : Nat) : Bool :=
  (takeBytes text position).isSome

/-- `String::replace_range`. -/
def replaceRange (text : List Char) (start stop : Nat) (replacement : List Char) : List Char :=
  (takeBytes text start).getD [] ++ replacement ++ (dropBytes text stop).getD []

/-- One turn of the loop of `apply`.  A span that is no range of the text is skipped. -/
def applyEdit (out : List Char) (edit : SuggestedEdit) : List Char :=
  if edit.span.stop < edit.span.start ∨ bytes out < edit.span.stop ∨
      !isCharBoundary out edit.span.start ∨ !isCharBoundary out edit.span.stop then out
  else replaceRange out edit.span.start edit.span.stop edit.replacement

/-- Applies non-overlapping edits, back to front so earlier spans stay valid. -/
def apply (source : List Char) (edits : List SuggestedEdit) : List Char :=
  edits.reverse.foldl applyEdit source

end Deed.Driver.Fixing
