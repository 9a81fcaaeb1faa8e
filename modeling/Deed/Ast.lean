import Mathlib

/-!
# The syntax tree

The tree `crates/deed-ast` declares, node for node.  A node keeps its span
where the source keeps one, because resolution, the guards and the declared
rows are all keyed by the place a name or an expression was written at.

`Expr`, `Block`, `Stmt`, `FieldInit` and `MatchArm` refer to each other and are
one mutual declaration; everything that does not need the others comes first.
-/

namespace Deed.Ast

/-- A half open byte range of one source file. -/
structure Span where
  start : Nat
  stop : Nat
deriving DecidableEq, Repr

/-- An empty span, used to point between two characters. -/
def Span.at (offset : Nat) : Span := ⟨offset, offset⟩

structure Ident where
  name : String
  span : Span
deriving DecidableEq, Repr

inductive BinaryOp where
  | or | and | eq | ne | lt | le | gt | ge | add | sub | mul | div | rem
deriving DecidableEq, Repr

namespace BinaryOp

def asStr : BinaryOp → String
  | .or => "||"
  | .and => "&&"
  | .eq => "=="
  | .ne => "!="
  | .lt => "<"
  | .le => "<="
  | .gt => ">"
  | .ge => ">="
  | .add => "+"
  | .sub => "-"
  | .mul => "*"
  | .div => "/"
  | .rem => "%"

/-- How a comparison is answered by a binding for `<`: `(swap, negate)`. -/
def fromLessThan : BinaryOp → Bool × Bool
  | .gt => (true, false)
  | .ge => (false, true)
  | .le => (true, true)
  | _ => (false, false)

end BinaryOp

inductive UnaryOp where
  | neg | not
deriving DecidableEq, Repr

/-- Which outcome of a call an `ensures` clause is about. -/
inductive Outcome where
  | ok | err
deriving DecidableEq, Repr

/-- `Ledger`, `Ledger.read`, or `sys.*`. -/
structure EffectRef where
  effect : Ident
  operation : Option Ident
  all : Bool
  span : Span
deriving DecidableEq, Repr

/-- A type as it is written. -/
inductive Ty where
  | named (name : Ident) (args : List Ty) (span : Span)
  | fn (params : List Ty) (row : List EffectRef) (ret : Ty) (span : Span)
  | unit (span : Span)
  | error (span : Span)

structure Param where
  name : Ident
  ty : Option Ty
  span : Span

mutual

inductive Pattern where
  | wildcard (span : Span)
  | path (segments : List Ident) (span : Span)
  | tuple (path : List Ident) (elements : List Pattern) (span : Span)
  | record (path : List Ident) (fields : List PatternField) (span : Span)
  | int (value : Int64) (span : Span)
  | str (value : String) (span : Span)
  | bool (value : Bool) (span : Span)
  | oneOf (alternatives : List Pattern) (span : Span)
  | error (span : Span)

inductive PatternField where
  | mk (name : Ident) (pattern : Option Pattern) (span : Span)

end

mutual

inductive Expr where
  | int (value : Int64) (span : Span)
  | str (value : String) (span : Span)
  | bool (value : Bool) (span : Span)
  | unit (span : Span)
  | ident (name : Ident)
  | field (receiver : Expr) (name : Ident) (span : Span)
  | call (callee : Expr) (args : List Expr) (span : Span)
  | list (elements : List Expr) (span : Span)
  | structLit (path : Expr) (fields : List FieldInit) (span : Span)
  | unary (op : UnaryOp) (operand : Expr) (span : Span)
  | binary (op : BinaryOp) (lhs rhs : Expr) (span : Span)
  | try (operand : Expr) (span : Span)
  | if (condition : Expr) (thenBranch : Block) (elseBranch : Option Expr)
      (span : Span)
  | match (scrutinee : Expr) (arms : List MatchArm) (span : Span)
  | for (binder : Ident) (index : Option Ident) (iterable : Expr)
      (accumulator : Option (Ident × Expr)) (keep : Option Expr)
      (body : Block) (span : Span)
  | block (block : Block)
  | closure (params : List Param) (body : Expr) (span : Span)
  | old (expr : Expr) (span : Span)
  | unchanged (effect : EffectRef) (span : Span)
  | with (handlers : List Expr) (body : Block) (span : Span)
  | error (span : Span)

/-- A field of a struct literal; `value` is `none` for the shorthand. -/
inductive FieldInit where
  | mk (name : Ident) (value : Option Expr) (span : Span)

inductive MatchArm where
  | mk (pattern : Pattern) (body : Expr) (span : Span)

inductive Block where
  | mk (stmts : List Stmt) (tail : Option Expr) (span : Span)

inductive Stmt where
  | let (pattern : Pattern) (ty : Option Ty) (init : Expr) (span : Span)
  | assign (target : Ident) (value : Expr) (span : Span)
  | return (value : Option Expr) (span : Span)
  | assert (condition : Expr) (span : Span)
  | refuses (subject : Expr) (span : Span)
  | abandon (span : Span)
  | expr (expr : Expr)

end

namespace FieldInit

def name : FieldInit → Ident
  | .mk name _ _ => name

def value : FieldInit → Option Expr
  | .mk _ value _ => value

end FieldInit

namespace MatchArm

def pattern : MatchArm → Pattern
  | .mk pattern _ _ => pattern

def body : MatchArm → Expr
  | .mk _ body _ => body

end MatchArm

namespace Block

def stmts : Block → List Stmt
  | .mk stmts _ _ => stmts

def tail : Block → Option Expr
  | .mk _ tail _ => tail

def span : Block → Span
  | .mk _ _ span => span

end Block

namespace Expr

def span : Expr → Span
  | .int _ span | .str _ span | .bool _ span | .unit span
  | .field _ _ span | .call _ _ span | .list _ span
  | .structLit _ _ span | .unary _ _ span | .binary _ _ _ span
  | .try _ span | .if _ _ _ span | .match _ _ span
  | .for _ _ _ _ _ _ span | .closure _ _ span | .old _ span
  | .unchanged _ span | .with _ _ span | .error span => span
  | .ident name => name.span
  | .block inner => inner.span

/-- `Int.max` and `Int.min`, as the number they stand for. -/
def intLimit : Expr → Option Int64
  | .field (.ident receiver) name _ =>
      if receiver.name = "Int" then
        if name.name = "max" then some Int64.maxValue
        else if name.name = "min" then some Int64.minValue
        else none
      else none
  | _ => none

end Expr

namespace Stmt

def span : Stmt → Span
  | .let _ _ _ span | .assign _ _ span | .return _ span
  | .assert _ span | .refuses _ span | .abandon span => span
  | .expr inner => inner.span

end Stmt

/-! ## Everything inside an expression -/

namespace Block

/-- The expressions one step inside a statement. -/
def ofStmt : Stmt → List Expr
  | .let _ _ init _ => [init]
  | .assign _ value _ => [value]
  | .return value _ => value.toList
  | .assert condition _ => [condition]
  | .refuses subject _ => [subject]
  | .abandon _ => []
  | .expr inner => [inner]

/-- Every expression one step inside a block. -/
def children (block : Block) : List Expr :=
  block.stmts.flatMap ofStmt ++ block.tail.toList

end Block

namespace Expr

/-- Every expression one step inside an expression. -/
def children : Expr → List Expr
  | .field receiver _ _ => [receiver]
  | .call callee args _ => callee :: args
  | .list elements _ => elements
  | .structLit path fields _ => path :: fields.filterMap FieldInit.value
  | .unary _ operand _ => [operand]
  | .try operand _ => [operand]
  | .binary _ lhs rhs _ => [lhs, rhs]
  | .if condition thenBranch elseBranch _ =>
      condition :: (thenBranch.children ++ elseBranch.toList)
  | .match scrutinee arms _ => scrutinee :: arms.map MatchArm.body
  | .for _ _ iterable accumulator keep body _ =>
      iterable :: ((accumulator.map Prod.snd).toList ++ keep.toList ++ body.children)
  | .block inner => inner.children
  | .closure _ body _ => [body]
  | .old expr _ => [expr]
  | .with handlers body _ => handlers ++ body.children
  | .int _ _ | .str _ _ | .bool _ _ | .unit _ | .ident _ | .unchanged _ _ | .error _ => []

end Expr

mutual

/-- An expression and everything inside it, each before what is inside it. -/
def Expr.walk : Expr → List Expr
  | .field receiver name span => .field receiver name span :: receiver.walk
  | .call callee args span => .call callee args span :: (callee.walk ++ walkAll args)
  | .list elements span => .list elements span :: walkAll elements
  | .structLit path fields span =>
      .structLit path fields span :: (path.walk ++ walkFields fields)
  | .unary op operand span => .unary op operand span :: operand.walk
  | .try operand span => .try operand span :: operand.walk
  | .binary op lhs rhs span => .binary op lhs rhs span :: (lhs.walk ++ rhs.walk)
  | .if condition thenBranch elseBranch span =>
      .if condition thenBranch elseBranch span ::
        (condition.walk ++ thenBranch.walk ++ walkMaybe elseBranch)
  | .match scrutinee arms span =>
      .match scrutinee arms span :: (scrutinee.walk ++ walkArms arms)
  | .for binder index iterable accumulator keep body span =>
      .for binder index iterable accumulator keep body span ::
        (iterable.walk ++ walkAccumulator accumulator ++ walkMaybe keep ++ body.walk)
  | .block inner => .block inner :: inner.walk
  | .closure params body span => .closure params body span :: body.walk
  | .old expr span => .old expr span :: expr.walk
  | .with handlers body span => .with handlers body span :: (walkAll handlers ++ body.walk)
  | .int value span => [.int value span]
  | .str value span => [.str value span]
  | .bool value span => [.bool value span]
  | .unit span => [.unit span]
  | .ident name => [.ident name]
  | .unchanged effect span => [.unchanged effect span]
  | .error span => [.error span]

def walkAll : List Expr → List Expr
  | [] => []
  | head :: rest => head.walk ++ walkAll rest

def walkMaybe : Option Expr → List Expr
  | none => []
  | some inner => inner.walk

def walkAccumulator : Option (Ident × Expr) → List Expr
  | none => []
  | some (_, init) => init.walk

def walkFields : List FieldInit → List Expr
  | [] => []
  | .mk _ value _ :: rest => walkMaybe value ++ walkFields rest

def walkArms : List MatchArm → List Expr
  | [] => []
  | .mk _ body _ :: rest => body.walk ++ walkArms rest

/-- Everything inside a block. -/
def Block.walk : Block → List Expr
  | .mk stmts tail _ => walkStmts stmts ++ walkMaybe tail

def walkStmts : List Stmt → List Expr
  | [] => []
  | head :: rest => head.walk ++ walkStmts rest

/-- Everything inside a statement. -/
def Stmt.walk : Stmt → List Expr
  | .let _ _ init _ => init.walk
  | .assign _ value _ => value.walk
  | .return value _ => walkMaybe value
  | .assert condition _ => condition.walk
  | .refuses subject _ => subject.walk
  | .abandon _ => []
  | .expr inner => inner.walk

end

theorem walkAll_eq (exprs : List Expr) : walkAll exprs = exprs.flatMap Expr.walk := by
  induction exprs with
  | nil => rfl
  | cons head rest ih => rw [walkAll, ih, List.flatMap_cons]

theorem walkMaybe_eq (expr : Option Expr) :
    walkMaybe expr = expr.toList.flatMap Expr.walk := by
  cases expr with
  | none => rfl
  | some inner => simp [walkMaybe]

theorem walkAccumulator_eq (accumulator : Option (Ident × Expr)) :
    walkAccumulator accumulator =
      (accumulator.map Prod.snd).toList.flatMap Expr.walk := by
  cases accumulator with
  | none => rfl
  | some carried => simp [walkAccumulator]

theorem walkFields_eq (fields : List FieldInit) :
    walkFields fields = (fields.filterMap FieldInit.value).flatMap Expr.walk := by
  induction fields with
  | nil => rfl
  | cons head rest ih =>
      cases head with
      | mk name value span =>
          cases value <;> simp [walkFields, walkMaybe, FieldInit.value, ih, List.filterMap_cons]

theorem walkArms_eq (arms : List MatchArm) :
    walkArms arms = (arms.map MatchArm.body).flatMap Expr.walk := by
  induction arms with
  | nil => rfl
  | cons head rest ih =>
      cases head with
      | mk pattern body span => rw [walkArms, ih, List.map_cons, List.flatMap_cons]; rfl

theorem walkStmts_eq (stmts : List Stmt) :
    walkStmts stmts = (stmts.flatMap Block.ofStmt).flatMap Expr.walk := by
  induction stmts with
  | nil => rfl
  | cons head rest ih =>
      rw [walkStmts, ih, List.flatMap_cons, List.flatMap_append]
      cases head <;> simp [Stmt.walk, Block.ofStmt, walkMaybe_eq]

theorem Block.walk_eq (block : Block) :
    block.walk = block.children.flatMap Expr.walk := by
  cases block with
  | mk stmts tail span =>
      rw [Block.walk, walkStmts_eq, walkMaybe_eq, Block.children, List.flatMap_append]
      rfl

/-- The walk is the one that goes to the children of an expression after the expression. -/
theorem Expr.walk_eq (expr : Expr) :
    expr.walk = expr :: expr.children.flatMap Expr.walk := by
  cases expr <;>
    simp [Expr.walk, Expr.children, walkAll_eq, walkMaybe_eq, walkAccumulator_eq,
      walkFields_eq, walkArms_eq, Block.walk_eq, List.flatMap_append]

/-! ## Declarations -/

/-- `ensures`, what a function guarantees, per outcome. -/
structure Ensures where
  outcome : Outcome
  condition : Expr
  span : Span

/-- Everything between the return type and the opening brace. -/
structure Contract where
  requires : List Expr
  ensures : List Ensures

structure FnSig where
  name : Ident
  params : List Param

structure FnDecl where
  sig : FnSig
  contract : Contract
  body : Block

structure FieldDecl where
  name : Ident
  span : Span

structure HandlerDecl where
  name : Ident
  effect : Ident
  state : List FieldDecl
  operations : List FnDecl
  /-- Cleanup that runs whenever the `with` block that installed this handler exits. -/
  finallyBlock : Option Block

end Deed.Ast
