import Deed.Eval.State

/-!
# What needs nothing evaluated

Patterns, field access, the arithmetic of an operator and the functions of the prelude:
the parts of the interpreter that work on values already there.
-/

namespace Deed.Eval

open Deed.Ast
open Deed.Library
open Action

variable {World : Type} {α : Type} (program : Program) (outside : Outside World)

/-! ## Patterns -/

section Patterns

variable (code : Code)

/-- The prelude name a pattern head refers to, if it is one. -/
def builtinName (path : List Ident) : Option String := do
  let last ← path.getLast?
  let definition ← code.defOf last
  if code.kindOf definition = .builtin then some (code.nameOf definition) else none

mutual

/-- Whether a pattern accepts a value. -/
def matchesPattern (value : Value) : Pattern → Bool
  | .wildcard _ => true
  | .int n _ => value.asInt == some n
  | .bool b _ => value.asBool == some b
  | .str s _ =>
      match value with
      | .str actual => actual == s
      | _ => false
  | .path segments _ =>
      match segments.getLast? with
      | some last =>
          match (code.defOf last).bind (program.variantId code) with
          | some id =>
              match value with
              | .variant origin name _ => origin == id.1 && name == id.2
              | _ => false
          -- A binding matches anything.
          | none => true
      | none => false
  | .record path _ _ =>
      match path.getLast?, value with
      | some last, .variant origin name _ =>
          ((code.defOf last).bind (program.variantId code)).any fun id =>
            origin == id.1 && name == id.2
      | _, _ => false
  | .tuple path _ _ =>
      match value with
      | .result ok _ =>
          match builtinName code path with
          | some name => (name == "ok") == ok
          | none => false
      | _ => false
  | .oneOf alternatives _ => matchesAny value alternatives
  | .error _ => false

def matchesAny (value : Value) : List Pattern → Bool
  | [] => false
  | alternative :: rest => matchesPattern value alternative || matchesAny value rest

end

mutual

/-- What a pattern binds, in the order it is bound. -/
def bindings (value : Value) : Pattern → List (DefId × Value)
  | .tuple _ elements _ =>
      match value with
      | .result _ inner => bindingsAll inner elements
      | _ => []
  | .path segments _ =>
      match segments with
      | [only] =>
          match code.defOf only with
          | some definition =>
              if code.kindOf definition = .local then [(definition, value)] else []
          | none => []
      | _ => []
  | .record _ fields _ =>
      match value with
      | .variant _ _ held => bindingsFields held fields
      | .record held => bindingsFields held fields
      | _ => []
  | .wildcard _ | .int _ _ | .str _ _ | .bool _ _ | .oneOf _ _ | .error _ => []

def bindingsAll (value : Value) : List Pattern → List (DefId × Value)
  | [] => []
  | pattern :: rest => bindings value pattern ++ bindingsAll value rest

def bindingsFields (held : List (String × Value)) : List PatternField → List (DefId × Value)
  | [] => []
  | .mk name pattern _ :: rest =>
      (match Assoc.find? held name.name with
        | none => []
        | some inner =>
            match pattern with
            | some pattern => bindings inner pattern
            | none => (code.defOf name).toList.map fun definition => (definition, inner)) ++
        bindingsFields held rest

end

end Patterns

/-- Binds everything in the running frame, one after the other. -/
def bindAll : List (DefId × Value) → Eval World Unit
  | [] => pure ()
  | (definition, value) :: rest => do
      insertInFrame definition value
      bindAll rest

/-- Binds what a pattern names. -/
def bindPattern (value : Value) (pattern : Pattern) : Eval World Unit := do
  let code ← here program
  bindAll (bindings code value pattern)

/-! ## Fields -/

/-- A capability taken out of `System`, or a field of a record or a variant. -/
def field (value : Value) (receiver : Span) (name : Ident) : Eval World Value :=
  match value with
  | .capability .system =>
      if name.name = "console" then pure (.capability .console)
      else if name.name = "clock" then pure (.capability .clock)
      else if name.name = "files" then
        match outside.root with
        | some root => pure (.capability (.dir root))
        | none => do
            let code ← here program
            fail ((Diagnostic.error Codes.NOT_RUNNABLE code.file name.span
                "this program was not given a directory").withPrimaryLabel
              "there is no `Dir` to hand out" |>.withNote
              "`sys.files` hands out the directory the run was rooted at; `deed run` roots it at `--dir`, or at the working directory when there is no `--dir`, and a path it cannot open leaves the program with none")
      else if name.name = "net" then pure (.capability (.net outside.reach))
      else notRunnable program name.span ("`System." ++ name.name ++ "`, which does not exist")
  | .record fields => held fields
  | .variant _ _ fields => held fields
  | other => notRunnable program receiver ("field access on " ++ other.describe)
where
  held (fields : Fields) : Eval World Value :=
    match Assoc.find? fields name.name with
    | some value => pure value
    | none => notRunnable program name.span ("`" ++ name.name ++ "`, which the value does not have")

/-! ## Operators -/

/-- A number in the range of an `Int`. -/
def checkedInt (number : Int) : Option Value :=
  if Int64.minValue.toInt ≤ number ∧ number ≤ Int64.maxValue.toInt then
    some (.int (Int64.ofInt number))
  else none

/-- An operator on two numbers; `none` where the arithmetic has no answer. -/
def intBinary (op : BinaryOp) (a b : Int64) : Option Value :=
  match op with
  | .add => checkedInt (a.toInt + b.toInt)
  | .sub => checkedInt (a.toInt - b.toInt)
  | .mul => checkedInt (a.toInt * b.toInt)
  | .div => if b = 0 then none else checkedInt (a.toInt.tdiv b.toInt)
  -- `checked_rem` gives no answer where the division overflows, as `checked_div` does.
  | .rem =>
      if b = 0 ∨ (a = Int64.minValue ∧ b = -1) then none
      else checkedInt (a.toInt.tmod b.toInt)
  | .lt => some (.bool (decide (a < b)))
  | .le => some (.bool (decide (a ≤ b)))
  | .gt => some (.bool (decide (b < a)))
  | .ge => some (.bool (decide (b ≤ a)))
  | .eq | .ne | .and | .or => none

/-- An operator on two strings; `none` where there is none. -/
def strBinary (op : BinaryOp) (a b : String) : Option Value :=
  match op with
  | .add => some (.str (a ++ b))
  | .lt => some (.bool (decide (a < b)))
  | .le => some (.bool (decide (a ≤ b)))
  | .gt => some (.bool (decide (b < a)))
  | .ge => some (.bool (decide (b ≤ a)))
  | _ => none

/-- An operator that no module bound, on two values. -/
def valueBinary (op : BinaryOp) (left right : Value) (span : Span) : Eval World Value :=
  match op with
  | .eq => pure (.bool (left.same right))
  | .ne => pure (.bool (!left.same right))
  | _ =>
      match left, right with
      | .str a, .str b =>
          match strBinary op a b with
          | some value => pure value
          | none => notRunnable program span ("`" ++ op.asStr ++ "` on two Strings")
      | .int a, .int b =>
          match intBinary op a b with
          | some value => pure value
          | none => overflow program span
      | left, right =>
          notRunnable program span
            ("`" ++ op.asStr ++ "` on " ++ left.describe ++ " and " ++ right.describe)

/-- How a unary operator was written. -/
def unaryOpAsStr : UnaryOp → String
  | .neg => "-"
  | .not => "!"

def valueUnary (op : UnaryOp) (value : Value) (span : Span) : Eval World Value :=
  match op, value with
  | .neg, .int n =>
      match checkedInt (-n.toInt) with
      | some value => pure value
      | none => overflow program span
  | .not, .bool b => pure (.bool (!b))
  | op, other => notRunnable program span ("`" ++ unaryOpAsStr op ++ "` on " ++ other.describe)

/-! ## The prelude -/

/-- What `trim` takes off the ends. -/
def WHITESPACE : List Char := [' ', '\t', '\r', '\n']

/-- The pieces between the occurrences of a separator, from the left; the limit is how many
occurrences are looked for. -/
def piecesWithin (separator : List Char) : Nat → List Char → List (List Char)
  | 0, text => [text]
  | limit + 1, text =>
      match splitOnce separator text with
      | some (before, after) => before :: piecesWithin separator limit after
      | none => [text]

/-- `split(text, separator)`; an empty separator gives the characters. -/
def split (text separator : String) : List Value :=
  if separator = "" then text.toList.map fun c => .str c.toString
  else (piecesWithin separator.toList text.length text.toList).map fun piece =>
    .str (String.ofList piece)

/-- The number that a run of decimal digits stands for. -/
def digitsNumber : List Char → Option Int
  | [] => none
  | digits =>
      if digits.all Char.isDigit then
        some (digits.foldl (fun number digit => number * 10 + (digit.toNat - '0'.toNat : Nat)) 0)
      else none

/-- `str::parse::<i64>`: a sign or none, then at least one digit, inside the range. -/
def parseInt (text : String) : Option Value :=
  match text.toList with
  | '+' :: digits => (digitsNumber digits).bind checkedInt
  | '-' :: digits => (digitsNumber digits).bind fun number => checkedInt (-number)
  | digits => (digitsNumber digits).bind checkedInt

/-- The texts in a list, where all of it is text. -/
def textsOf : List Value → Option (List String)
  | [] => some []
  | .str text :: rest => (textsOf rest).map fun texts => text :: texts
  | _ :: _ => none

/-- A function of the prelude by its name; `none` for what is not one of its calls. -/
def builtin (name : String) (values : List Value) : Option Value :=
  match values.head? with
  | none => none
  | some carried =>
      match name, carried with
      | "ok", value => some value.ok
      | "err", value => some value.err
      | "length", .str text => some (.int (Int64.ofNat text.length))
      | "length", .list elements => some (.int (Int64.ofNat elements.length))
      | "hash", value => (hashOf value).map Value.int
      | "at", .list elements =>
          let index := (values[1]?).bind Value.asInt
          match (index.filter fun index => 0 ≤ index).bind fun index =>
              elements[index.toInt.toNat]? with
          | some value => some value.ok
          | none => some (Value.err (.str ("index " ++ toString (index.getD 0).toInt ++
              " is outside a list of " ++ toString elements.length)))
      | "push", .list elements =>
          (values[1]?).map fun value => .list (elements ++ [value])
      | "repeat", value =>
          ((values[1]?).bind Value.asInt).map fun count =>
            .list (List.replicate count.toInt.toNat value)
      | "split", .str text =>
          match (values[1]? : Option Value) with
          | some (.str separator) => some (.list (split text separator))
          | _ => none
      | "join", .list elements =>
          match (values[1]? : Option Value) with
          | some (.str separator) =>
              (textsOf elements).map fun texts => .str (String.intercalate separator texts)
          | _ => none
      | "to_string", .int number => some (.str (toString number.toInt))
      | "trim", .str text =>
          some (.str (String.ofList (trim (fun c => decide (c ∈ WHITESPACE)) text.toList)))
      | "upper", .str text => some (.str (text.map Char.toUpper))
      | "lower", .str text => some (.str (text.map Char.toLower))
      | "to_int", .str text =>
          match parseInt text with
          | some number => some number.ok
          | none => some (Value.err (.str ("`" ++ text ++ "` is not a number")))
      | _, _ => none

/-- Calls a function of the prelude. -/
def callBuiltin (name : String) (values : List Value) (callee : Span) : Eval World Value :=
  match builtin name values with
  | some value => pure value
  | none =>
      notRunnable program callee
        (if name = "hash" ∧ values ≠ [] then "hashing this" else "this call")

/-- Performs a built-in operation. -/
def performIo (name : String) (args : List (Value × Span)) (span : Span) :
    Eval World Value := do
  let code ← here program
  fun interp =>
    let (result, world) := outside.perform name args code.file span interp.world
    some (result.mapError Signal.fail, { interp with world })

end Deed.Eval
