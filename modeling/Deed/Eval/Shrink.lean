import Deed.Eval.Value

/-!
# Shrinking a counterexample

`shrink` and `Simpler` of `crates/deed-interp/src/property.rs`: arguments that a function
fails on, made smaller for as long as it still fails.  An attempt is a function of the
arguments, and the number of them to spend is a parameter.
-/

namespace Deed.Eval

open Deed.Library

variable {Diagnostic : Type}

/-- What one attempt came to. -/
inductive PropertyAttempt (Diagnostic : Type) where
  | passed (value : Value)
  /-- The input violated a precondition. -/
  | rejected
  | failed (diagnostic : Diagnostic)

/-- The diagnostic of an attempt that failed. -/
def attemptWith (attempt : List Value → PropertyAttempt Diagnostic) (args : List Value) :
    Option Diagnostic :=
  match attempt args with
  | .failed diagnostic => some diagnostic
  | _ => none

/-- Arguments, what was found with them, and how many attempts are left. -/
structure Shrinking (Diagnostic : Type) where
  args : List Value
  failure : Diagnostic
  budget : Nat

/-! ## Integers -/

/-- The integer of 64 bits that is nearest to a number. -/
def saturated (number : Int) : Int64 :=
  if number < Int64.minValue.toInt then Int64.minValue
  else if Int64.maxValue.toInt < number then Int64.maxValue
  else Int64.ofInt number

/-- `i64::checked_abs`. -/
def checkedAbs (number : Int64) : Option Int64 :=
  if number = Int64.minValue then none else some (if number < 0 then -number else number)

/-- A magnitude with the sign of the integer that the search is for. -/
def signed (start magnitude : Int64) : Int64 :=
  if start < 0 then saturated (0 - magnitude.toInt) else magnitude

def magnitude (start : Int64) : Int64 := (checkedAbs start).getD Int64.maxValue

variable (attempt : List Value → PropertyAttempt Diagnostic)

/-- Runs the function with one argument replaced. -/
def tryValue (args : List Value) (index : Nat) (candidate : Int64) : Option Diagnostic :=
  attemptWith attempt (args.set index (.int candidate))

/-- What a search has come to: the magnitude that fails, why, and the attempts left. -/
structure Found (Diagnostic : Type) where
  bad : Int64
  failure : Diagnostic
  budget : Nat

/-- The loop of `shrink_int`, with at most so many turns.  The function passes at `good`. -/
def bisect (args : List Value) (index : Nat) (start : Int64) :
    Nat → Int64 → Found Diagnostic → Found Diagnostic
  | 0, _, found => found
  | turns + 1, good, found =>
      if found.bad - good = 1 then found
      else
        let middle := good + (found.bad - good) / 2
        match tryValue attempt args index (signed start middle) with
        | some diagnostic => bisect args index start turns good ⟨middle, diagnostic, found.budget - 1⟩
        | none => bisect args index start turns middle { found with budget := found.budget - 1 }

/-- A binary search toward zero. -/
def shrinkInt (state : Shrinking Diagnostic) (index : Nat) : Shrinking Diagnostic :=
  match state.args[index]? with
  | some (.int start) =>
      if start = 0 then state
      else
        let budget := state.budget - 1
        match tryValue attempt state.args index 0 with
        | some diagnostic => ⟨state.args.set index (.int 0), diagnostic, budget⟩
        | none =>
            let found := bisect attempt state.args index start budget 0
              ⟨magnitude start, state.failure, budget⟩
            let args := state.args.set index (.int (signed start found.bad))
            ⟨args, (attemptWith attempt args).getD found.failure, found.budget⟩
  | _ => state

/-! ## Everything else -/

/-- The arguments with one of them made simpler, one after the other.  Integers are left. -/
def candidates (smaller : Value → List Value) (args : List Value) : List (List Value) :=
  args.zipIdx.flatMap fun argument =>
    match argument.1 with
    | .int _ => []
    | value => (smaller value).map fun candidate => args.set argument.2 candidate

/-- The first candidate that still fails, and the attempts left; none where these run out. -/
def tryEach : List (List Value) → Nat → Nat × Option (List Value × Diagnostic)
  | [], budget => (budget, none)
  | candidate :: rest, budget =>
      if budget - 1 = 0 then (0, none)
      else
        match attemptWith attempt candidate with
        | some diagnostic => (budget - 1, some (candidate, diagnostic))
        | none => tryEach rest (budget - 1)

/-- The loop that goes round again with the first smaller form that still fails. -/
def greedy (smaller : Value → List Value) : Nat → Shrinking Diagnostic → Shrinking Diagnostic
  | 0, state => state
  | turns + 1, state =>
      if state.budget = 0 then state
      else
        match tryEach attempt (candidates smaller state.args) state.budget with
        | (budget, some (args, diagnostic)) => greedy smaller turns ⟨args, diagnostic, budget⟩
        | (budget, none) => { state with budget }

/-- Shrinks a failing input.  Each turn of the last loop takes an attempt, so that there are no
more of them than attempts left. -/
def shrink (smaller : Value → List Value) (args : List Value) (failure : Diagnostic)
    (budget : Nat) : List Value × Diagnostic :=
  let searched := (List.range args.length).foldl (shrinkInt attempt) ⟨args, failure, budget⟩
  let state := greedy attempt smaller searched.budget searched
  (state.args, state.failure)

end Deed.Eval
