import Deed.Ast

/-!
# The middle representation

The types and the tree of `crates/deed-mir/src/lib.rs`: what a program is between the
checker and a backend.  Refinements and type parameters are gone, and what a layout, a
function or an effect is called has become a number.
-/

namespace Deed.Mir

open Deed.Ast (Span)

/-- Which record or choice layout, by position in the program's layouts. -/
abbrev LayoutId := Nat

/-- Which function, by position in the program's functions. -/
abbrev FuncId := Nat

/-- Which slot within one function body. -/
abbrev Local := Nat

abbrev EffectId := Nat

/-- The types a value can have at this level. -/
inductive Ty where
  | unit
  | bool
  | int
  | str
  | list (element : Ty)
  /-- A record or a choice, by the index of its layout. -/
  | aggregate (layout : LayoutId)
  /-- An opaque handle. -/
  | capability
  /-- A function value: a code pointer and a captured environment. -/
  | closure
deriving DecidableEq, Repr

/-- Whether a value of this type is a reference to something. -/
def Ty.isBoxed : Ty → Bool
  | .str | .list _ | .aggregate _ | .closure => true
  | _ => false

structure Field where
  name : String
  ty : Ty
deriving DecidableEq, Repr

structure Variant where
  name : String
  fields : List Field
deriving DecidableEq, Repr

/-- How a record or a choice is laid out: a record is a choice with a single variant. -/
structure Layout where
  name : String
  variants : List Variant
  /-- Whether a `choice` declared this rather than a `record`. -/
  choice : Bool
deriving DecidableEq, Repr

/-- Whether reading this has to look at a discriminant first. -/
def Layout.isTagged (layout : Layout) : Bool := 1 < layout.variants.length

structure Effect where
  name : String
  operations : List String
  interface : Option String
deriving DecidableEq, Repr

inductive UnaryOp where
  | not
  | negate
deriving DecidableEq, Repr

/-- The operators, already resolved to one meaning each. -/
inductive BinaryOp where
  | addInt | subInt | mulInt | divInt | remInt
  | concatStr
  | eq | ne
  | ltInt | leInt | gtInt | geInt
  | ltStr | leStr | gtStr | geStr
  | and | or
deriving DecidableEq, Repr

def BinaryOp.resultTy : BinaryOp → Ty
  | .addInt | .subInt | .mulInt | .divInt | .remInt => .int
  | .concatStr => .str
  | _ => .bool

/-- What the runtime library publishes under a name. -/
inductive RuntimeName where
  | strConcat | strEq | strCmp | strLen | strSplit | strJoin | strTrim | strUpper
  | strLower | strToInt | intToStr
  | listNew | listPush | listAt | listLen | listRepeat | listRoom | listRoomFrom
  | listAppend
  | contractFailed
deriving DecidableEq, Repr

mutual

inductive Expr where
  | unit
  | bool (value : Bool)
  | int (value : Int64)
  | str (value : String)
  | local_ (slot : Local)
  | unary (op : UnaryOp) (operand : Expr)
  | binary (op : BinaryOp) (left right : Expr) (span : Span)
  | call (func : FuncId) (args : List Expr) (span : Span)
  | callIndirect (callee : Expr) (args : List Expr) (ret : Ty) (span : Span)
  /-- Builds a record, or one variant of a choice. -/
  | make (layout : LayoutId) (variant : Nat) (fields : List Expr)
  | field (value : Expr) (layout : LayoutId) (variant field : Nat)
  | discriminant (value : Expr) (layout : LayoutId)
  | list (element : Ty) (items : List Expr)
  | if_ (condition : Expr) (then_ otherwise : Block) (ty : Ty)
  | block (block : Block)
  /-- What a value is made of, folded into one number. -/
  | hashed (value : Expr) (ty : Ty)
  | runtime (name : RuntimeName) (args : List Expr) (ret : Ty)
  /-- One element of a list, with nothing checking the bound. -/
  | elementAt (list index : Expr) (element : Ty)
  /-- Runs a block with a handler answering for an effect. -/
  | install (effect : EffectId) (state : Expr) (operations : List FuncId) (body : Block)
      (ty : Ty)
  /-- Performs an operation, answered by whichever handler is innermost. -/
  | perform (effect : EffectId) (operation : Nat) (args : List Expr) (ret : Ty)
  /-- A call to something the host supplies rather than the program. -/
  | host (name : String) (args : List Expr) (ret : Ty)

/-- Statements, then the value the whole thing has. -/
inductive Block where
  | mk (stmts : List Stmt) (value : Expr)

inductive Stmt where
  | assign (slot : Local) (value : Expr)
  | discard (value : Expr)
  | return_ (value : Expr)
  /-- Stops with a contract failure. -/
  | fail (code message : String) (span : Span)
  | while_ (condition : Expr) (body : List Stmt)
  /-- Writes one field of an aggregate in place. -/
  | setField (object : Expr) (layout : LayoutId) (variant field : Nat) (value : Expr)

end

def Block.stmts : Block → List Stmt
  | .mk stmts _ => stmts

def Block.value : Block → Expr
  | .mk _ value => value

/-- A block of nothing but a value. -/
def Block.of (value : Expr) : Block := .mk [] value

structure Function where
  name : String
  params : List Ty
  ret : Ty
  /-- Every slot, the parameters first. -/
  locals : List Ty
  body : Block

structure Program where
  layouts : List Layout
  effects : List Effect
  functions : List Function
  /-- A vector holds fewer elements than half the addresses there are. -/
  counted : ∀ layout ∈ layouts, layout.variants.length < 2 ^ 63

/-- A layout by its identifier.  Identifiers are made by adding a layout; one that nobody
made stops the compiler, and is the layout of nothing here. -/
def Program.layout (program : Program) (id : LayoutId) : Layout :=
  program.layouts.getD id ⟨"", [], false⟩

theorem Program.variants_lt (program : Program) (id : LayoutId) :
    (program.layout id).variants.length < 2 ^ 63 := by
  rw [Program.layout, List.getD_eq_getElem?_getD]
  cases found : program.layouts[id]? with
  | none => exact Nat.two_pow_pos 63
  | some layout => exact program.counted layout (List.mem_of_getElem? found)

end Deed.Mir
