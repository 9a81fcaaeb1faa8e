import Deed.Stdlib.Slices

/-!
# Shipped text functions

The functions of `std/string` that slice, search and trim, with the functions of the prelude
that they walk with.  A text is cut into its characters by splitting it at nothing.
-/

namespace Deed.Stdlib

/-! ## The prelude -/

/-- `length`, of a text: its characters. -/
def lengthOf (text : String) : Int64 := Int64.ofNat text.length

/-- `split`; an empty separator gives the characters. -/
def split (text separator : String) : List String :=
  if separator = "" then text.toList.map Char.toString
  else (Eval.piecesWithin separator.toList text.length text.toList).map String.ofList

/-- `join`. -/
def join (pieces : List String) (separator : String) : String :=
  String.intercalate separator pieces

/-- `trim`: the four characters of white space gone from both ends. -/
def trim (text : String) : String :=
  String.ofList (Library.trim (fun c => decide (c ∈ Eval.WHITESPACE)) text.toList)

/-! ## Slices and searches -/

/-- The characters from `start` up to but not including `stop`. -/
def slice (text : String) (start stop : Int64) : String :=
  let characters := split text ""
  let kept := (turns characters).foldl
    (fun out turn => if turn.2 ≥ start ∧ turn.2 < stop then push out turn.1 else out) []
  join kept ""

/-- Where `needle` starts, or the length of `text` when it is not there. -/
def indexOf (text needle : String) : Int64 :=
  let before := split text needle
  if length before > 1 then
    match elementAt before 0 with
    | .ok head => lengthOf head
    | .error _ => lengthOf text
  else lengthOf text

/-- Whether `text` begins with `start`. -/
def startsWith (text start : String) : Bool := slice text 0 (lengthOf start) == start

/-- Whether `text` ends with `suffix`. -/
def endsWith (text suffix : String) : Option Bool :=
  (minus (lengthOf text) (lengthOf suffix)).map fun first =>
    slice text first (lengthOf text) == suffix

/-- Whether `needle` appears anywhere in `text`. -/
def contains (text needle : String) : Bool := length (split text needle) > 1

/-! ## Trimming -/

/-- Whether a character is one of the four that are trimmed. -/
def isSpace (ch : String) : Bool := ch == " " || ch == "\t" || ch == "\r" || ch == "\n"

/-- The white space counted so far, and whether the run goes on. -/
structure LeadingSpaces where
  count : Int64
  counting : Bool

/-- `text` with the white space at the front gone. -/
def trimStart (text : String) : Option String :=
  ((split text "").foldlM
    (fun state ch =>
      if state.counting && isSpace ch then
        (plus state.count 1).map fun count => { count, counting := true }
      else some { count := state.count, counting := false })
    ({ count := 0, counting := true } : LeadingSpaces)).map fun counted =>
      slice text counted.count (lengthOf text)

/-- The same, from the other end. -/
def trimEnd (text : String) : Option String :=
  ((split text "").foldlM (fun run ch => if isSpace ch then plus run 1 else some 0) 0).bind
    fun trailing => (minus (lengthOf text) trailing).map fun stop => slice text 0 stop

/-! ## The interpreter's prelude -/

theorem textsOf_map (pieces : List String) :
    Eval.textsOf (pieces.map Eval.Value.str) = some pieces := by
  induction pieces with
  | nil => rfl
  | cons piece pieces ih => rw [List.map_cons, Eval.textsOf, ih]; rfl

theorem split_value (text separator : String) :
    Eval.split text separator = (split text separator).map Eval.Value.str := by
  rw [Eval.split, split]
  split
  · rw [List.map_map]
    rfl
  · rw [List.map_map]
    rfl

/-- The calls of the prelude that these functions make. -/
theorem builtin_texts (text separator : String) (pieces : List String) :
    Eval.builtin "length" [.str text] = some (.int (lengthOf text)) ∧
      Eval.builtin "split" [.str text, .str separator] =
        some (.list ((split text separator).map Eval.Value.str)) ∧
      Eval.builtin "join" [.list (pieces.map Eval.Value.str), .str separator] =
        some (.str (join pieces separator)) ∧
      Eval.builtin "trim" [.str text] = some (.str (trim text)) := by
  refine ⟨rfl, ?_, ?_, rfl⟩
  · rw [← split_value]
    rfl
  · show Option.map _ (Eval.textsOf _) = _
    rw [textsOf_map]
    rfl

end Deed.Stdlib
