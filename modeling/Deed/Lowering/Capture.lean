import Deed.Lowering.Match

/-!
# Lowering a closure

`names_in` and `closure` of `crates/deed-mir/src/lower.rs`.  A closure becomes a function of
its own, which is given what it captured in an aggregate: the code pointer and, after it, one
field for each captured name.  What is captured is found by a walk over the body, which
looks up every name it meets in the slots of the enclosing function.

How an expression and a written type are lowered, and which type was recorded at a span,
are parameters, as they are for a `match`.
-/

namespace Deed.Lowering

open Deed.Ast (FieldInit Ident MatchArm Param Span)
open Deed.Eval (DefId)
open Deed.Library
open Deed.Mir

/-! ## The names of a body -/

mutual

/-- Every name an expression mentions, by where it was written. -/
def namesIn : Ast.Expr → List Span
  | .ident name => [name.span]
  | .field receiver _ _ => namesIn receiver
  | .call callee args _ => namesIn callee ++ namesInAll args
  | .list elements _ => namesInAll elements
  | .structLit _ fields _ => namesInFields fields
  | .unary _ operand _ => namesIn operand
  | .binary _ lhs rhs _ => namesIn lhs ++ namesIn rhs
  | .try operand _ => namesIn operand
  | .if condition thenBranch elseBranch _ =>
      namesIn condition ++ namesInBlock thenBranch ++ namesInMaybe elseBranch
  | .match scrutinee arms _ => namesIn scrutinee ++ namesInArms arms
  | .for _ _ iterable accumulator keep body _ =>
      namesIn iterable ++ namesInAccumulator accumulator ++ namesInMaybe keep ++
        namesInBlock body
  | .block inner => namesInBlock inner
  | .closure _ body _ => namesIn body
  -- The source has one arm for all of these: a `with` and an `old` are not walked.
  | .int _ _ | .str _ _ | .bool _ _ | .unit _ | .old _ _ | .unchanged _ _ | .with _ _ _
  | .error _ => []

def namesInAll : List Ast.Expr → List Span
  | [] => []
  | head :: rest => namesIn head ++ namesInAll rest

def namesInMaybe : Option Ast.Expr → List Span
  | none => []
  | some inner => namesIn inner

def namesInAccumulator : Option (Ident × Ast.Expr) → List Span
  | none => []
  | some (_, init) => namesIn init

def namesInFields : List FieldInit → List Span
  | [] => []
  | .mk name value _ :: rest => name.span :: (namesInMaybe value ++ namesInFields rest)

def namesInArms : List MatchArm → List Span
  | [] => []
  | .mk _ body _ :: rest => namesIn body ++ namesInArms rest

def namesInBlock : Ast.Block → List Span
  | .mk stmts tail _ => namesInStmts stmts ++ namesInMaybe tail

def namesInStmts : List Ast.Stmt → List Span
  | [] => []
  | head :: rest => namesInStmt head ++ namesInStmts rest

def namesInStmt : Ast.Stmt → List Span
  | .let _ _ init _ => namesIn init
  | .expr inner => namesIn inner
  | .assert condition _ => namesIn condition
  | .assign _ value _ => namesIn value
  | .return value _ => namesInMaybe value
  | .refuses _ _ => []
  | .abandon _ => []

end

/-! ## The closure -/

/-- What lowering keeps besides the function it is in the middle of: the layouts and the
functions made on the way, and what the function returns. -/
structure Lifting (More : Type) where
  shapes : List Layout
  lifted : List Function
  ret : Ty
  more : More

section Closure

variable {More : Type} (resolution : Span → Option DefId) (declared : Nat)
  (written : Ast.Ty → Lower (Lifting More) Ty) (tyAt : Span → Lower (Lifting More) Ty)
  (expr : Ast.Expr → Lower (Lifting More) Expr)

/-- One name of the body: captured when it is a slot of the enclosing function, once. -/
def capture (slots : List (DefId × Local)) (found : List (DefId × Local)) (name : Span) :
    List (DefId × Local) :=
  match resolution name with
  | none => found
  | some definition =>
      match Assoc.find? slots definition with
      | none => found
      | some slot =>
          if found.any fun known => known.1 == definition then found
          else found ++ [(definition, slot)]

/-- What a closure captures: the names of its body that the enclosing function has in a
slot, in the order the body mentions them. -/
def captured (slots : List (DefId × Local)) (body : Ast.Expr) : List (DefId × Local) :=
  (namesIn body).foldl (capture resolution slots) []

/-- The layout of what a closure carries: the code pointer, and one field for each name. -/
def environment (locals : List Ty) (held : List (DefId × Local)) (span : Span) : Layout :=
  ⟨"closure at " ++ toString span.start,
    [⟨"closure", ⟨"code", .int⟩ :: held.mapIdx fun index entry =>
      ⟨"held" ++ toString index, locals.getD entry.2 .unit⟩⟩], false⟩

/-- The type of a parameter: the one written, or the one the checker recorded. -/
def paramTys : List Param → Lower (Lifting More) (List Ty)
  | [] => pure []
  | param :: rest => do
      let ty ←
        match param.ty with
        | some ty => written ty
        | none => tyAt param.span
      let more ← paramTys rest
      pure (ty :: more)

/-- Inside the body a parameter is a parameter, after the environment. -/
def paramSlots (slots : List (DefId × Local)) : Nat → List Param → List (DefId × Local)
  | _, [] => slots
  | position, param :: rest =>
      match resolution param.name.span with
      | some definition =>
          paramSlots (Assoc.insert slots definition (position + 1)) (position + 1) rest
      | none => paramSlots slots (position + 1) rest

/-- The type of a field of the environment. -/
def fieldTy (shapes : List Layout) (shape : LayoutId) (field : Nat) : Ty :=
  ((((shapes.getD shape ⟨"", [], false⟩).variants.getD 0 ⟨"", []⟩).fields).getD field
    ⟨"", .unit⟩).ty

/-- Inside the body a captured name reads out of the environment. -/
def readHeld (shape : LayoutId) : Nat → List (DefId × Local) →
    Lower (Lifting More) (List Stmt)
  | _, [] => pure []
  | position, (definition, _) :: rest => do
      let ty ← Action.look fun lowering => fieldTy lowering.rest.shapes shape (position + 1)
      let slot ← addLocal ty
      Action.change fun lowering =>
        { lowering with slots := Assoc.insert lowering.slots definition slot }
      let more ← readHeld shape (position + 1) rest
      pure (.assign slot (.field (.local_ 0) shape 0 (position + 1)) :: more)

/-- A function with parameters and nothing in it yet. -/
def emptyFunction (name : String) (params : List Ty) (ret : Ty) : Function :=
  ⟨name, params, ret, params, .of .unit⟩

/-- Puts the body into the place that was taken for it.  A place that is not there stops
the compiler. -/
def fill (place : Nat) (locals : List Ty) (body : Block) : Lower (Lifting More) Unit := do
  let lifted ← Action.look fun lowering => lowering.rest.lifted
  match lifted[place]? with
  | none => Action.stuck
  | some function =>
      let filled : Function := { function with locals := locals, body := body }
      Action.change fun lowering =>
        { lowering with rest := { lowering.rest with lifted := lifted.set place filled } }

/-- A closure becomes a function of its own and a value that carries what it captured. -/
def closure (params : List Param) (body : Ast.Expr) (span : Span) :
    Lower (Lifting More) Expr := do
  let before ← Action.look id
  let held := captured resolution before.slots body
  let shape := before.rest.shapes.length
  Action.change fun lowering =>
    { lowering with rest :=
      { lowering.rest with shapes :=
        lowering.rest.shapes ++ [environment before.locals held span] } }
  let tys ← paramTys written tyAt params
  let ret ← tyAt body.span
  let outer ← Action.look id
  let index := declared + outer.rest.lifted.length
  -- The place is taken before the body is lowered, which may lift something of its own.
  Action.change fun lowering =>
    { lowering with
      locals := .aggregate shape :: tys
      slots := paramSlots resolution lowering.slots 0 params
      rest := { lowering.rest with
        lifted := lowering.rest.lifted ++
          [emptyFunction ("closure" ++ toString index) (.aggregate shape :: tys) ret]
        ret := ret } }
  let reads ← readHeld shape 0 held
  let lowered ← expr body
  let locals ← Action.look fun lowering => lowering.locals
  Action.change fun lowering =>
    { lowering with
      locals := outer.locals
      rest := { lowering.rest with ret := outer.rest.ret } }
  fill (index - declared) locals (.mk reads lowered)
  Action.change fun lowering => { lowering with slots := outer.slots }
  pure (.make shape 0 (.int (.ofNat index) :: held.map fun entry => .local_ entry.2))

end Closure

end Deed.Lowering
