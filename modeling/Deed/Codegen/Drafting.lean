import Deed.Codegen.Compile

/-!
# What a builder takes

Compiling an expression takes slots for what it holds on to, and gives none of them back: a slot
that is taken later is another one.
-/

namespace Deed.Codegen

open Deed.Library
open Deed.Mir Deed.Runtime Deed.Wasm

/-- Slots are only ever added. -/
def Longer (before after : Drafted) : Prop :=
  before.extraLocals.length ≤ after.extraLocals.length

section Taking

variable {builder : Builder} {α β : Type}

theorem longer_refl (drafted : Drafted) : Longer drafted drafted := Nat.le_refl _

theorem longer_trans (first second third : Drafted) (one : Longer first second)
    (two : Longer second third) : Longer first third := Nat.le_trans one two

theorem longer_pure (value : α) : Action.Keeps Longer (pure value : Emit α) :=
  Action.Keeps.pure longer_refl value

theorem longer_fail (what : String) : Action.Keeps Longer (builder.fail what : Emit α) :=
  Action.Keeps.signal longer_refl _

theorem longer_bind {first : Emit α} {next : α → Emit β}
    (keeps : Action.Keeps Longer first) (continues : ∀ value, Action.Keeps Longer (next value)) :
    Action.Keeps Longer (first >>= next) :=
  Action.Keeps.bind longer_trans keeps continues

theorem longer_require (found : Option α) (what : String) :
    Action.Keeps Longer (builder.require found what) := by
  cases found with
  | none => exact longer_fail what
  | some value => exact longer_pure value

theorem longer_temporary (ty : ValType) : Action.Keeps Longer (builder.temporary ty) := by
  refine longer_bind (Action.Keeps.look longer_refl id) fun drafted => longer_bind ?_ fun _ =>
    longer_pure _
  apply Action.Keeps.change
  intro state
  rw [Longer, List.length_append]
  exact Nat.le_add_right _ _

theorem longer_mark (span : Ast.Span) (role : SpanRole) (inner : Ins) :
    Action.Keeps Longer (Builder.mark span role inner) :=
  longer_bind (Action.Keeps.look longer_refl id) fun _ => longer_bind
    (Action.Keeps.change longer_refl) fun _ => longer_pure _

theorem longer_place (text : String) : Action.Keeps Longer (Builder.place text) :=
  longer_bind (Action.Keeps.look longer_refl id) fun _ => longer_bind
    (Action.Keeps.change longer_refl) fun _ => longer_pure _

theorem longer_failure (code message : String) :
    Action.Keeps Longer (Builder.failureInstructions code message) :=
  longer_bind (longer_place code) fun _ => longer_bind (longer_place message) fun _ =>
    longer_pure _

theorem longer_trap : Action.Keeps Longer Builder.trapOnTrue :=
  longer_bind (longer_failure _ _) fun _ => longer_pure _

theorem longer_checked (op : BinaryOp) (left right : UInt32) :
    Action.Keeps Longer (builder.checkedBinary op left right) := by
  have divided (operation : Ins) :
      Action.Keeps Longer (Builder.checkedBinary.divided left right operation) :=
    longer_bind longer_trap fun _ => longer_pure _
  cases op
  case addInt =>
    exact longer_bind (longer_temporary _) fun _ => longer_bind longer_trap fun _ =>
      longer_pure _
  case subInt =>
    exact longer_bind (longer_temporary _) fun _ => longer_bind longer_trap fun _ =>
      longer_pure _
  case mulInt =>
    exact longer_bind (longer_temporary _) fun _ => longer_bind longer_trap fun _ =>
      longer_bind (longer_failure _ _) fun _ => longer_pure _
  case divInt => exact divided _
  case remInt => exact divided _
  all_goals exact longer_fail _

theorem longer_helper (helper : Helper) : Action.Keeps Longer (builder.helper helper) :=
  longer_require _ _

theorem longer_ordered (order : Ins) :
    Action.Keeps Longer (Builder.operation.ordered builder order) :=
  longer_bind (longer_helper _) fun _ => longer_pure _

theorem longer_equality (operand : Ty) (after wide narrow : Ins) (bare : Int32) :
    Action.Keeps Longer
      (Builder.operation.equality builder operand after wide narrow bare) := by
  rw [Builder.operation.equality]
  split
  · exact longer_bind (longer_helper _) fun _ => longer_pure _
  · split
    · exact longer_bind (longer_require _ _) fun _ => longer_pure _
    · split
      · exact longer_fail _
      · split <;> exact longer_pure _

theorem longer_binary (op : BinaryOp) (left : Expr) (span : Ast.Span) :
    Action.Keeps Longer (builder.binary op left span) := by
  refine longer_bind ?_ fun _ => longer_bind (longer_mark _ _ _) fun _ => longer_pure _
  cases op
  case concatStr => exact longer_bind (longer_helper _) fun _ => longer_pure _
  case ltStr => exact longer_ordered _
  case leStr => exact longer_ordered _
  case gtStr => exact longer_ordered _
  case geStr => exact longer_ordered _
  case eq => exact longer_equality _ _ _ _ _
  case ne => exact longer_equality _ _ _ _ _
  all_goals exact longer_pure _

end Taking

section Compiling

variable {builder : Builder}

theorem longer_hashing (ty : Ty) : Action.Keeps Longer (builder.hashing ty) := by
  rw [Builder.hashing]
  split
  · exact longer_bind (longer_helper _) fun _ => longer_pure _
  · split
    · exact longer_bind (longer_require _ _) fun _ => longer_pure _
    · split
      · exact longer_fail _
      · split <;> exact longer_pure _

theorem longer_runtimeCall (helper : Helper) (ret : Ty) :
    Action.Keeps Longer (builder.runtimeCall helper ret) :=
  longer_bind (longer_helper helper) fun _ => longer_pure _

theorem longer_storeWord (address : UInt32) (offset : Nat) (ty : Ty) {value : Emit (List Ins)}
    (keeps : Action.Keeps Longer value) :
    Action.Keeps Longer (Builder.storeWord address offset ty value) := by
  rw [Builder.storeWord]
  split
  · exact longer_pure _
  · exact longer_bind keeps fun _ => longer_pure _

theorem longer_state (state : Expr) (into : UInt32) {stored value : Emit (List Ins)}
    (keeps : Action.Keeps Longer stored) (keeps' : Action.Keeps Longer value) :
    Action.Keeps Longer (builder.stateOnTheFrameStack state into stored value) := by
  rw [Builder.stateOnTheFrameStack]
  split
  · exact longer_bind keeps fun _ => longer_pure _
  · exact longer_bind keeps' fun _ => longer_pure _

theorem longer_allocate (size : Nat) (into : UInt32) :
    Action.Keeps Longer (builder.allocate size into) :=
  longer_bind (longer_helper _) fun _ => longer_pure _

mutual

/-- Whatever is compiled, the slots that were taken before it are still taken after it. -/
theorem longer_expr (builder : Builder) (e : Expr) : Action.Keeps Longer (builder.expr e) := by
  cases e with
  | unit => rw [Builder.expr]; exact longer_pure _
  | bool value => rw [Builder.expr]; exact longer_pure _
  | int value => rw [Builder.expr]; exact longer_pure _
  | str text =>
      rw [Builder.expr]
      exact longer_bind (longer_place text) fun _ => longer_pure _
  | local_ slot => rw [Builder.expr]; exact longer_pure _
  | unary op operand =>
      cases op with
      | not =>
          rw [Builder.expr]
          exact longer_bind (longer_expr builder operand) fun _ => longer_pure _
      | negate =>
          rw [Builder.expr]
          exact longer_bind (longer_temporary _) fun _ =>
            longer_bind (longer_expr builder operand) fun _ =>
              longer_bind (longer_bind longer_trap fun _ => longer_pure _) fun _ =>
                longer_pure _
  | binary op left right span =>
      have checked : Action.Keeps Longer (do
          let leftSlot ← builder.temporary .i64
          let rightSlot ← builder.temporary .i64
          let first ← builder.expr left
          let second ← builder.expr right
          let checked ← builder.checkedBinary op leftSlot rightSlot
          pure (first ++ [.localSet leftSlot] ++ second ++ [.localSet rightSlot] ++ checked)) :=
        longer_bind (longer_temporary _) fun _ => longer_bind (longer_temporary _) fun _ =>
          longer_bind (longer_expr builder left) fun _ =>
            longer_bind (longer_expr builder right) fun _ =>
              longer_bind (longer_checked op _ _) fun _ => longer_pure _
      have plain : Action.Keeps Longer (do
          let first ← builder.expr left
          let second ← builder.expr right
          let operation ← builder.binary op left span
          pure (first ++ second ++ operation)) :=
        longer_bind (longer_expr builder left) fun _ =>
          longer_bind (longer_expr builder right) fun _ =>
            longer_bind (longer_binary op left span) fun _ => longer_pure _
      cases op <;> simp only [Builder.expr] <;> first | exact checked | exact plain
  | call func args span =>
      rw [Builder.expr]
      exact longer_bind (longer_exprs builder args) fun _ => longer_bind (longer_mark _ _ _)
        fun _ => longer_pure _
  | callIndirect callee args ret span =>
      rw [Builder.expr]
      exact longer_bind (longer_require _ _) fun _ =>
        longer_bind (longer_expr builder callee) fun _ =>
          longer_bind (longer_exprs builder args) fun _ =>
            longer_bind (longer_expr builder callee) fun _ =>
              longer_bind (longer_mark _ _ _) fun _ => longer_pure _
  | install effect state operations body ty =>
      rw [Builder.expr]
      exact longer_bind (longer_temporary _) fun _ => longer_bind (longer_temporary _) fun _ =>
        longer_bind (longer_state state _ (longer_storeFields builder _ state)
          (longer_expr builder state)) fun _ =>
          longer_bind (longer_temporary _) fun _ =>
            longer_bind (longer_block builder body) fun _ => longer_pure _
  | perform effect operation args ret =>
      have performed (cursor : UInt32) (exhausted : List Ins) : Action.Keeps Longer (do
          let typeIndex ← builder.signature (builder.shape args ret)
          let values ← builder.exprs args
          pure ([.i32Const (.ofNat HANDLERS), .i64Load 0, .localSet cursor,
              .block none [.loop none (Builder.search cursor effect exhausted)],
              .localGet cursor, .i32WrapI64, .i64Load (.ofNat (2 * WORD))] ++ values ++
            [.localGet cursor, .i32WrapI64, .i64Load (.ofNat (operationOffset operation)),
              .i32WrapI64, .callIndirect typeIndex])) :=
        longer_bind (longer_require _ _) fun _ => longer_bind (longer_exprs builder args)
          fun _ => longer_pure _
      rw [Builder.expr]
      refine longer_bind (longer_temporary _) fun cursor => ?_
      cases builder.hostImport effect operation with
      | none => exact performed cursor [.unreachable]
      | some index =>
          exact longer_bind (longer_exprs builder args) fun values =>
            longer_bind (longer_pure (values ++ [Ins.call index, Ins.return_])) fun exhausted =>
              performed cursor exhausted
  | host name args ret =>
      rw [Builder.expr]
      exact longer_bind (longer_require _ _) fun _ => longer_bind (longer_exprs builder args)
        fun _ => longer_pure _
  | make layout variant fields =>
      rw [Builder.expr]
      exact longer_bind (longer_temporary _) fun _ => longer_bind (longer_allocate _ _) fun _ =>
        longer_bind (longer_storeWords builder _ _ _ fields) fun _ => longer_pure _
  | field value layout variant field =>
      rw [Builder.expr]
      refine longer_bind (longer_expr builder value) fun _ => ?_
      split <;> exact longer_pure _
  | discriminant value layout =>
      rw [Builder.expr]
      refine longer_bind (longer_expr builder value) fun _ => ?_
      split <;> exact longer_pure _
  | list element items =>
      rw [Builder.expr]
      exact longer_bind (longer_temporary _) fun _ => longer_bind (longer_allocate _ _) fun _ =>
        longer_bind (longer_storeWords builder _ _ _ items) fun _ => longer_pure _
  | if_ condition then_ otherwise ty =>
      rw [Builder.expr]
      exact longer_bind (longer_expr builder condition) fun _ =>
        longer_bind (longer_block builder then_) fun _ =>
          longer_bind (longer_block builder otherwise) fun _ => longer_pure _
  | block inner =>
      rw [Builder.expr]
      exact longer_block builder inner
  | hashed value ty =>
      rw [Builder.expr]
      exact longer_bind (longer_expr builder value) fun _ => longer_bind (longer_hashing ty)
        fun _ => longer_pure _
  | runtime name args ret =>
      rw [Builder.expr]
      split
      · exact longer_bind (longer_firstOf builder args) fun _ => longer_pure _
      · exact longer_bind (longer_require _ _) fun _ =>
          longer_bind (longer_widenedArgs builder args) fun _ =>
            longer_bind (longer_runtimeCall _ ret) fun _ => longer_pure _
  | elementAt list index element =>
      rw [Builder.expr]
      exact longer_bind (longer_expr builder list) fun _ =>
        longer_bind (longer_expr builder index) fun _ => longer_pure _

theorem longer_exprs (builder : Builder) (es : List Expr) :
    Action.Keeps Longer (builder.exprs es) := by
  cases es with
  | nil => rw [Builder.exprs]; exact longer_pure _
  | cons first rest =>
      rw [Builder.exprs]
      exact longer_bind (longer_expr builder first) fun _ =>
        longer_bind (longer_exprs builder rest) fun _ => longer_pure _

theorem longer_firstOf (builder : Builder) (es : List Expr) :
    Action.Keeps Longer (builder.firstOf es) := by
  cases es with
  | nil => rw [Builder.firstOf]; exact longer_fail _
  | cons first rest => rw [Builder.firstOf]; exact longer_expr builder first

theorem longer_widenedArgs (builder : Builder) (es : List Expr) :
    Action.Keeps Longer (builder.widenedArgs es) := by
  cases es with
  | nil => rw [Builder.widenedArgs]; exact longer_pure _
  | cons first rest =>
      rw [Builder.widenedArgs]
      exact longer_bind (longer_expr builder first) fun _ =>
        longer_bind (longer_widenedArgs builder rest) fun _ => longer_pure _

theorem longer_storeWords (builder : Builder) (address : UInt32) (offset : Nat → Nat)
    (index : Nat) (es : List Expr) :
    Action.Keeps Longer (builder.storeWords address offset index es) := by
  cases es with
  | nil => rw [Builder.storeWords]; exact longer_pure _
  | cons first rest =>
      rw [Builder.storeWords]
      exact longer_bind (longer_storeWord _ _ _ (longer_expr builder first)) fun _ =>
        longer_bind (longer_storeWords builder address offset (index + 1) rest) fun _ =>
          longer_pure _

theorem longer_storeFields (builder : Builder) (into : UInt32) (e : Expr) :
    Action.Keeps Longer (builder.storeFields into e) := by
  cases e
  case make layout variant fields =>
    rw [Builder.storeFields]
    exact longer_storeWords builder into _ 0 fields
  all_goals
    rw [Builder.storeFields]
    · exact longer_pure _
    · exact fun _ _ _ => Expr.noConfusion

theorem longer_block (builder : Builder) (b : Block) :
    Action.Keeps Longer (builder.block b) := by
  cases b with
  | mk body value =>
      rw [Builder.block]
      exact longer_bind (longer_stmts builder body) fun _ =>
        longer_bind (longer_expr builder value) fun _ => longer_pure _

theorem longer_stmt (builder : Builder) (s : Stmt) : Action.Keeps Longer (builder.stmt s) := by
  cases s with
  | assign slot value =>
      rw [Builder.stmt]
      exact longer_bind (longer_expr builder value) fun _ => longer_pure _
  | discard value =>
      rw [Builder.stmt]
      exact longer_bind (longer_expr builder value) fun _ => longer_pure _
  | return_ value =>
      rw [Builder.stmt]
      exact longer_bind (longer_expr builder value) fun _ => longer_pure _
  | fail code message span =>
      rw [Builder.stmt]
      exact longer_bind (longer_failure code message) fun _ => longer_bind (longer_mark _ _ _)
        fun _ => longer_pure _
  | while_ condition body =>
      rw [Builder.stmt]
      exact longer_bind (longer_expr builder condition) fun _ =>
        longer_bind (longer_stmts builder body) fun _ => longer_pure _
  | setField object layout variant field value =>
      rw [Builder.stmt]
      split
      · exact longer_expr builder value
      · exact longer_bind (longer_expr builder object) fun _ =>
          longer_bind (longer_expr builder value) fun _ => longer_pure _

theorem longer_stmts (builder : Builder) (body : List Stmt) :
    Action.Keeps Longer (builder.stmts body) := by
  cases body with
  | nil => rw [Builder.stmts]; exact longer_pure _
  | cons first rest =>
      rw [Builder.stmts]
      exact longer_bind (longer_stmt builder first) fun _ =>
        longer_bind (longer_stmts builder rest) fun _ => longer_pure _

end

end Compiling

end Deed.Codegen
