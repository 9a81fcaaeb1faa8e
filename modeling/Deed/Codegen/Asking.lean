import Deed.Codegen.Collecting
import Deed.Library.Refusing

/-!
# What a body asks for

Compiling a body reads what was collected before it, and refuses with the first thing it asks
for that is not there.  `asks` is what it asks for, in that order; each entry says whether it
stands in what is folded into a hash, where the walk over the program does not go.
-/

namespace Deed.Codegen

open Deed.Library
open Deed.Wasm Deed.Mir Deed.Runtime

/-- What the backend compiles in no program. -/
inductive Refusal where
  | comparing
  | hashing
  | argument
  | runtime (name : RuntimeName)
deriving DecidableEq

/-- What is said of it. -/
def Refusal.text : Refusal → String
  | .comparing => "comparing two values that live in memory"
  | .hashing => "hashing a value that lives in memory"
  | .argument => "an argument that is not there"
  | .runtime name => "the runtime function \x60" ++ RuntimeName.text name ++ "\x60"

/-- Something that compiling a body asks for, or notes. -/
inductive Ask where
  | helper (helper : Helper)
  | comparison (shape : Ty)
  | fold (shape : Ty)
  | host (name : String)
  | signature (signature : FuncType)
  /-- An operation is performed.  That it escapes is no refusal: it traps. -/
  | performs (effect : EffectId) (operation : Nat)
  | installs (effect : EffectId)
  | refused (why : Refusal)
deriving DecidableEq

structure Asked where
  /-- Whether it stands in what is folded into a hash. -/
  hidden : Bool
  ask : Ask

/-- What an operator asks for, by the type of its left operand. -/
def operatorAsks (op : BinaryOp) (operand : Ty) : List Ask :=
  match op with
  | .concatStr => [.helper .joinedText]
  | .ltStr | .leStr | .gtStr | .geStr => [.helper .textOrder]
  | .eq | .ne =>
      if operand = .str then [.helper .sameText]
      else if Equality.walked operand then [.comparison operand]
      else if operand.isBoxed then [.refused .comparing]
      else []
  | _ => []

def hashAsks (ty : Ty) : List Ask :=
  if ty = .str then [.helper .hashedText]
  else if Hashing.walked ty then [.fold ty]
  else if ty.isBoxed then [.refused .hashing]
  else []

/-- Some of what is asked for at one place. -/
def askedAt (hidden : Bool) (asks : List Ask) : List Asked := asks.map (Asked.mk hidden)

section Asking

-- `offered` says which operations the module imports an answer to.
variable (program : Program) (function : Function) (offered : EffectId → Nat → Bool)

/-- The shape of an indirect call of a body. -/
def callAsk (args : List Expr) (ret : Ty) : Ask :=
  .signature ⟨.i64 :: args.filterMap fun arg => valType (tyIn program function arg),
    (valType ret).toList⟩

mutual

def asks (hidden : Bool) : Expr → List Asked
  | .unary _ operand => asks hidden operand
  | .binary op left right _ =>
      asks hidden left ++ asks hidden right ++
        askedAt hidden (operatorAsks op (tyIn program function left))
  | .call _ args _ => asksAll hidden args
  | .callIndirect callee args ret _ =>
      askedAt hidden [callAsk program function args ret] ++ asks hidden callee ++
        asksAll hidden args ++ asks hidden callee
  | .install effect state _ body _ =>
      askedAt hidden [.installs effect] ++
        (if (Builder.made state).isSome then asksFields hidden state else asks hidden state) ++
        asksBlock hidden body
  | .perform effect operation args ret =>
      askedAt hidden [.performs effect operation] ++
        (if offered effect operation then asksAll hidden args else []) ++
        askedAt hidden [callAsk program function args ret] ++ asksAll hidden args
  | .host name args _ => askedAt hidden [.host name] ++ asksAll hidden args
  | .make _ _ fields => askedAt hidden [.helper .grownMemory] ++ asksStored hidden fields
  | .field value _ _ _ => asks hidden value
  | .discriminant value _ => asks hidden value
  | .list _ items => askedAt hidden [.helper .grownMemory] ++ asksStored hidden items
  | .if_ condition then_ otherwise _ =>
      asks hidden condition ++ asksBlock hidden then_ ++ asksBlock hidden otherwise
  | .block inner => asksBlock hidden inner
  | .hashed value ty => asks true value ++ askedAt hidden (hashAsks ty)
  | .runtime name args _ =>
      if name = .strLen ∨ name = .listLen then asksFirst hidden args
      else
        match RuntimeName.helper name with
        | none => askedAt hidden [.refused (.runtime name)]
        | some helper => asksAll hidden args ++ askedAt hidden [.helper helper]
  | .elementAt list index _ => asks hidden list ++ asks hidden index
  | .unit | .bool _ | .int _ | .str _ | .local_ _ => []

def asksAll (hidden : Bool) : List Expr → List Asked
  | [] => []
  | first :: rest => asks hidden first ++ asksAll hidden rest

/-- The only argument that is looked at. -/
def asksFirst (hidden : Bool) : List Expr → List Asked
  | [] => askedAt hidden [.refused .argument]
  | first :: _ => asks hidden first

/-- What is stored: nothing is asked for what has no representation. -/
def asksStored (hidden : Bool) : List Expr → List Asked
  | [] => []
  | first :: rest =>
      (if (valType (tyIn program function first)).isSome then asks hidden first else []) ++
        asksStored hidden rest

def asksFields (hidden : Bool) : Expr → List Asked
  | .make _ _ fields => asksStored hidden fields
  | _ => []

def asksBlock (hidden : Bool) : Block → List Asked
  | .mk body value => asksStmts hidden body ++ asks hidden value

def asksStmt (hidden : Bool) : Stmt → List Asked
  | .assign _ value => asks hidden value
  | .discard value => asks hidden value
  | .return_ value => asks hidden value
  | .fail _ _ _ => []
  | .while_ condition body => asks hidden condition ++ asksStmts hidden body
  | .setField object _ _ _ value =>
      (if (valType (tyIn program function value)).isSome then asks hidden object else []) ++
        asks hidden value

def asksStmts (hidden : Bool) : List Stmt → List Asked
  | [] => []
  | first :: rest => asksStmt hidden first ++ asksStmts hidden rest

end

end Asking

/-! ## What is not there -/

namespace Builder

variable (builder : Builder)

/-- What is said of something asked for that is not there. -/
def complaint : Ask → Option String
  | .helper helper =>
      absent (builder.helpers helper)
        ("\x60" ++ helperName helper ++
          "\x60, which nothing collected before the bodies were compiled")
  | .comparison shape =>
      absent (callOf builder.equals shape) "comparing two values of a shape nothing collected"
  | .fold shape => absent (callOf builder.hashes shape) "hashing a shape nothing collected"
  | .host name =>
      absent (builder.imports.findIdx? fun found =>
          found.module == (importName name).1 && found.name == (importName name).2)
        ("a call to \x60" ++ name ++ "\x60, which nothing imported")
  | .signature wanted =>
      absent (builder.signatures.findIdx? fun found => found == wanted)
        "a call to a shape nothing declares"
  | .performs _ _ => none
  | .installs _ => none
  | .refused why => some why.text
where
  absent {α : Type} (found : Option α) (what : String) : Option String :=
    if found.isSome then none else some what

/-- The first of some complaints. -/
def complains (asked : List Asked) : Option Unsupported :=
  asked.findSome? fun entry =>
    (builder.complaint entry.ask).map (Unsupported.mk builder.function.name)

/-- An action that asks for some things in turn. -/
def Answers {α : Type} (asked : List Asked) (action : Emit α) : Prop :=
  Action.Refuses (builder.complains asked) action

/-- Whether the host was asked for an operation. -/
def offers (effect : EffectId) (operation : Nat) : Bool :=
  (builder.hostImport effect operation).isSome

end Builder

section Answering

variable {builder : Builder} {α β : Type} {hidden : Bool} {asked later : List Asked}

theorem complains_append (asked later : List Asked) :
    builder.complains (asked ++ later) = (builder.complains asked).or (builder.complains later) :=
  List.findSome?_append

theorem answers_pure (value : α) : builder.Answers [] (pure value : Emit α) :=
  Action.Refuses.pure value

theorem answers_bind {first : Emit α} {next : α → Emit β} (answers : builder.Answers asked first)
    (continues : ∀ value, builder.Answers later (next value)) :
    builder.Answers (asked ++ later) (first >>= next) := by
  rw [Builder.Answers, complains_append]
  exact Action.Refuses.bind answers continues

theorem answers_next {first : Emit α} {next : α → Emit β} (answers : builder.Answers [] first)
    (continues : ∀ value, builder.Answers asked (next value)) :
    builder.Answers asked (first >>= next) :=
  answers_bind answers continues

theorem answers_last {first : Emit α} {next : α → Emit β} (answers : builder.Answers asked first)
    (continues : ∀ value, builder.Answers [] (next value)) :
    builder.Answers asked (first >>= next) :=
  Action.Refuses.map answers continues

theorem complains_one (ask : Ask) :
    builder.complains (askedAt hidden [ask]) =
      (builder.complaint ask).map (Unsupported.mk builder.function.name) := by
  show List.findSome? _ [_] = _
  rw [List.findSome?_singleton]

theorem answers_fail (why : Refusal) :
    builder.Answers (askedAt hidden [.refused why]) (builder.fail why.text : Emit α) := by
  rw [Builder.Answers, complains_one]
  exact Action.Refuses.signal _

/-- What comes after a refusal is not asked for. -/
theorem answers_stop (why : Refusal) {next : α → Emit β} :
    builder.Answers (askedAt hidden [.refused why]) (builder.fail why.text >>= next) := by
  have stops := @answers_fail builder α hidden why
  rw [Builder.Answers, complains_one] at stops ⊢
  exact Action.Refuses.stop stops

theorem answers_require {ask : Ask} {found : Option α} {what : String}
    (same : builder.complaint ask = Builder.complaint.absent found what) :
    builder.Answers (askedAt hidden [ask]) (builder.require found what) := by
  rw [Builder.Answers, complains_one, same]
  cases found with
  | none => exact Action.Refuses.signal _
  | some value => exact Action.Refuses.pure value

theorem answers_temporary (ty : ValType) : builder.Answers [] (builder.temporary ty) :=
  answers_next (Action.Refuses.look id) fun _ =>
    answers_next (Action.Refuses.change _) fun _ => answers_pure _

theorem answers_mark (span : Ast.Span) (role : SpanRole) (inner : Ins) :
    builder.Answers [] (Builder.mark span role inner) :=
  answers_next (Action.Refuses.look id) fun _ =>
    answers_next (Action.Refuses.change _) fun _ => answers_pure _

theorem answers_place (text : String) : builder.Answers [] (Builder.place text) :=
  answers_next (Action.Refuses.look id) fun _ =>
    answers_next (Action.Refuses.change _) fun _ => answers_pure _

theorem answers_failure (code message : String) :
    builder.Answers [] (Builder.failureInstructions code message) :=
  answers_next (answers_place code) fun _ => answers_next (answers_place message) fun _ =>
    answers_pure _

theorem answers_trap : builder.Answers [] Builder.trapOnTrue :=
  answers_next (answers_failure _ _) fun _ => answers_pure _

theorem answers_helper (helper : Helper) :
    builder.Answers (askedAt hidden [.helper helper]) (builder.helper helper) :=
  answers_require rfl

theorem answers_allocate (size : Nat) (into : UInt32) :
    builder.Answers (askedAt hidden [.helper .grownMemory]) (builder.allocate size into) :=
  answers_last (answers_helper _) fun _ => answers_pure _

theorem answers_shape {args : List Expr} {ret : Ty} :
    builder.Answers (askedAt hidden [callAsk builder.program builder.function args ret])
      (builder.signature (builder.shape args ret)) := by
  apply answers_require
  rw [callAsk, Builder.complaint, Builder.complaint.absent, Builder.complaint.absent,
    Option.isSome_map]
  rfl

theorem answers_import (name : String) :
    builder.Answers (askedAt hidden [.host name]) (builder.import name) := by
  apply answers_require
  rw [Builder.complaint, Builder.complaint.absent, Builder.complaint.absent, Option.isSome_map,
    importName]
  cases splitOnce ['.'] name.toList <;> rfl

/-- What is only noted is no complaint. -/
theorem answers_noted {ask : Ask} {action : Emit α} (noted : builder.complaint ask = none)
    (answers : builder.Answers asked action) :
    builder.Answers (askedAt hidden [ask] ++ asked) action := by
  rw [Builder.Answers, complains_append, complains_one, noted]
  exact answers

theorem answers_checked (left right : UInt32) {op : BinaryOp}
    (checked : op = .addInt ∨ op = .subInt ∨ op = .mulInt ∨ op = .divInt ∨ op = .remInt) :
    builder.Answers [] (builder.checkedBinary op left right) := by
  have divided (operation : Ins) :
      builder.Answers [] (Builder.checkedBinary.divided left right operation) :=
    answers_next answers_trap fun _ => answers_pure _
  have summed {finish : UInt32 → List Ins → List Ins} :
      builder.Answers [] (do
        let slot ← builder.temporary .i64
        let trap ← Builder.trapOnTrue
        pure (finish slot trap) : Emit (List Ins)) :=
    answers_next (answers_temporary _) fun _ => answers_next answers_trap fun _ =>
      answers_pure _
  rcases checked with rfl | rfl | rfl | rfl | rfl
  · exact summed
  · exact summed
  · exact answers_next (answers_temporary _) fun _ => answers_next answers_trap fun _ =>
      answers_next (answers_failure _ _) fun _ => answers_pure _
  · exact divided _
  · exact divided _

theorem answers_ordered (order : Ins) :
    builder.Answers (askedAt hidden [.helper .textOrder])
      (Builder.operation.ordered builder order) :=
  answers_last (answers_helper _) fun _ => answers_pure _

theorem answers_equality (op : BinaryOp) (operand : Ty) (equality : op = .eq ∨ op = .ne)
    (after wide narrow : Ins) (bare : Int32) :
    builder.Answers (askedAt hidden (operatorAsks op operand))
      (Builder.operation.equality builder operand after wide narrow bare) := by
  have same : operatorAsks op operand = operatorAsks .eq operand := by
    rcases equality with rfl | rfl <;> rfl
  rw [same, operatorAsks, Builder.operation.equality]
  split
  · exact answers_last (answers_helper _) fun _ => answers_pure _
  · split
    · exact answers_last (answers_require rfl) fun _ => answers_pure _
    · split
      · exact answers_fail .comparing
      · split <;> exact answers_pure _

theorem answers_binary (op : BinaryOp) (left : Expr) (span : Ast.Span) :
    builder.Answers
      (askedAt hidden (operatorAsks op (tyIn builder.program builder.function left)))
      (builder.binary op left span) := by
  refine answers_last ?_ fun _ => answers_next (answers_mark _ _ _) fun _ => answers_pure _
  cases op
  case concatStr => exact answers_last (answers_helper _) fun _ => answers_pure _
  case ltStr => exact answers_ordered _
  case leStr => exact answers_ordered _
  case gtStr => exact answers_ordered _
  case geStr => exact answers_ordered _
  case eq => exact answers_equality .eq _ (Or.inl rfl) _ _ _ _
  case ne => exact answers_equality .ne _ (Or.inr rfl) _ _ _ _
  all_goals exact answers_pure _

theorem answers_hashing (ty : Ty) :
    builder.Answers (askedAt hidden (hashAsks ty)) (builder.hashing ty) := by
  rw [Builder.hashing, hashAsks]
  split
  · exact answers_last (answers_helper _) fun _ => answers_pure _
  · split
    · exact answers_last (answers_require rfl) fun _ => answers_pure _
    · split
      · exact answers_fail .hashing
      · split <;> exact answers_pure _

theorem answers_storeWord (address : UInt32) (offset : Nat) (ty : Ty) {value : Emit (List Ins)}
    (answers : builder.Answers asked value) :
    builder.Answers (if (valType ty).isSome then asked else [])
      (Builder.storeWord address offset ty value) := by
  rw [Builder.storeWord]
  cases valType ty with
  | none => exact answers_pure _
  | some width => exact answers_last answers fun _ => answers_pure _

theorem answers_state (state : Expr) (into : UInt32) {stored value : Emit (List Ins)}
    (answers : builder.Answers asked stored) (answers' : builder.Answers later value) :
    builder.Answers (if (Builder.made state).isSome then asked else later)
      (builder.stateOnTheFrameStack state into stored value) := by
  rw [Builder.stateOnTheFrameStack]
  cases Builder.made state with
  | none => exact answers_last answers' fun _ => answers_pure _
  | some parts => exact answers_last answers fun _ => answers_pure _

end Answering

/-! ## Every body -/

/-- What an expression asks for under a builder. -/
def Builder.asksOf (builder : Builder) (hidden : Bool) (e : Expr) : List Asked :=
  asks builder.program builder.function builder.offers hidden e

mutual

/-- Compiling an expression asks for these things in turn, and for nothing else. -/
theorem answers_expr (builder : Builder) (hidden : Bool) (e : Expr) :
    builder.Answers (builder.asksOf hidden e) (builder.expr e) := by
  cases e with
  | unit => rw [Builder.expr]; exact answers_pure _
  | bool value => rw [Builder.expr]; exact answers_pure _
  | int value => rw [Builder.expr]; exact answers_pure _
  | str text =>
      rw [Builder.expr]
      exact answers_next (answers_place text) fun _ => answers_pure _
  | local_ slot => rw [Builder.expr]; exact answers_pure _
  | unary op operand =>
      cases op with
      | not =>
          rw [Builder.expr, Builder.asksOf, asks]
          exact answers_last (answers_expr builder hidden operand) fun _ => answers_pure _
      | negate =>
          rw [Builder.expr, Builder.asksOf, asks]
          exact answers_next (answers_temporary _) fun _ =>
            answers_last (answers_expr builder hidden operand) fun _ =>
              answers_next (answers_next answers_trap fun _ => answers_pure _) fun _ =>
                answers_pure _
  | binary op left right span =>
      rw [Builder.asksOf, asks]
      have checked (arithmetic : op = .addInt ∨ op = .subInt ∨ op = .mulInt ∨ op = .divInt ∨
          op = .remInt) :
          builder.Answers (builder.asksOf hidden left ++ builder.asksOf hidden right ++ []) (do
            let leftSlot ← builder.temporary .i64
            let rightSlot ← builder.temporary .i64
            let first ← builder.expr left
            let second ← builder.expr right
            let checked ← builder.checkedBinary op leftSlot rightSlot
            pure (first ++ [.localSet leftSlot] ++ second ++ [.localSet rightSlot] ++ checked) :
              Emit (List Ins)) := by
        rw [List.append_nil]
        exact answers_next (answers_temporary _) fun _ => answers_next (answers_temporary _)
          fun _ => answers_bind (answers_expr builder hidden left) fun _ =>
            answers_last (answers_expr builder hidden right) fun _ =>
              answers_next (answers_checked _ _ arithmetic) fun _ => answers_pure _
      have plain : builder.Answers (builder.asksOf hidden left ++ builder.asksOf hidden right ++
          askedAt hidden (operatorAsks op (tyIn builder.program builder.function left))) (do
            let first ← builder.expr left
            let second ← builder.expr right
            let operation ← builder.binary op left span
            pure (first ++ second ++ operation) : Emit (List Ins)) := by
        rw [List.append_assoc]
        exact answers_bind (answers_expr builder hidden left) fun _ =>
          answers_bind (answers_expr builder hidden right) fun _ =>
            answers_last (answers_binary op left span) fun _ => answers_pure _
      cases op
      case addInt => rw [Builder.expr]; exact checked (Or.inl rfl)
      case subInt => rw [Builder.expr]; exact checked (Or.inr (Or.inl rfl))
      case mulInt => rw [Builder.expr]; exact checked (Or.inr (Or.inr (Or.inl rfl)))
      case divInt => rw [Builder.expr]; exact checked (Or.inr (Or.inr (Or.inr (Or.inl rfl))))
      case remInt => rw [Builder.expr]; exact checked (Or.inr (Or.inr (Or.inr (Or.inr rfl))))
      all_goals
        simp only [Builder.expr]
        exact plain
  | call func args span =>
      rw [Builder.expr, Builder.asksOf, asks]
      exact answers_last (answers_exprs builder hidden args) fun _ =>
        answers_next (answers_mark _ _ _) fun _ => answers_pure _
  | callIndirect callee args ret span =>
      rw [Builder.expr, Builder.asksOf, asks, List.append_assoc, List.append_assoc]
      exact answers_bind answers_shape fun _ => answers_bind (answers_expr builder hidden callee)
        fun _ => answers_bind (answers_exprs builder hidden args) fun _ =>
          answers_last (answers_expr builder hidden callee) fun _ =>
            answers_next (answers_mark _ _ _) fun _ => answers_pure _
  | install effect state operations body ty =>
      rw [Builder.expr, Builder.asksOf, asks, List.append_assoc]
      exact answers_noted rfl (answers_next (answers_temporary _) fun _ =>
        answers_next (answers_temporary _) fun _ =>
          answers_bind (answers_state _ _ (answers_storeFields builder hidden _ state)
            (answers_expr builder hidden state)) fun _ =>
              answers_next (answers_temporary _) fun _ =>
                answers_last (answers_block builder hidden body) fun _ => answers_pure _)
  | perform effect operation args ret =>
      have performed (cursor : UInt32) (exhausted : List Ins) : builder.Answers
          (askedAt hidden [callAsk builder.program builder.function args ret] ++
            asksAll builder.program builder.function builder.offers hidden args)
          (do
            let typeIndex ← builder.signature (builder.shape args ret)
            let values ← builder.exprs args
            pure ([.i32Const (.ofNat HANDLERS), .i64Load 0, .localSet cursor,
                .block none [.loop none (Builder.search cursor effect exhausted)],
                .localGet cursor, .i32WrapI64, .i64Load (.ofNat (2 * WORD))] ++ values ++
              [.localGet cursor, .i32WrapI64, .i64Load (.ofNat (operationOffset operation)),
                .i32WrapI64, .callIndirect typeIndex]) : Emit (List Ins)) :=
        answers_bind answers_shape fun _ =>
          answers_last (answers_exprs builder hidden args) fun _ => answers_pure _
      rw [Builder.expr, Builder.asksOf, asks, List.append_assoc, List.append_assoc]
      refine answers_noted rfl (answers_next (answers_temporary _) fun cursor => ?_)
      rw [Builder.offers]
      cases builder.hostImport effect operation with
      | none => exact performed cursor [.unreachable]
      | some index =>
          exact answers_bind (answers_exprs builder hidden args) fun values =>
            answers_next (answers_pure (values ++ [Ins.call index, Ins.return_])) fun exhausted =>
              performed cursor exhausted
  | host name args ret =>
      rw [Builder.expr, Builder.asksOf, asks]
      exact answers_bind (answers_import name) fun _ =>
        answers_last (answers_exprs builder hidden args) fun _ => answers_pure _
  | make layout variant fields =>
      rw [Builder.expr, Builder.asksOf, asks]
      exact answers_next (answers_temporary _) fun _ => answers_bind (answers_allocate _ _)
        fun _ => answers_last (answers_storeWords builder hidden _ _ 0 fields) fun _ =>
          answers_pure _
  | field value layout variant field =>
      rw [Builder.expr, Builder.asksOf, asks]
      refine answers_last (answers_expr builder hidden value) fun _ => ?_
      split <;> exact answers_pure _
  | discriminant value layout =>
      rw [Builder.expr, Builder.asksOf, asks]
      refine answers_last (answers_expr builder hidden value) fun _ => ?_
      split <;> exact answers_pure _
  | list element items =>
      rw [Builder.expr, Builder.asksOf, asks]
      exact answers_next (answers_temporary _) fun _ => answers_bind (answers_allocate _ _)
        fun _ => answers_last (answers_storeWords builder hidden _ _ 0 items) fun _ =>
          answers_pure _
  | if_ condition then_ otherwise ty =>
      rw [Builder.expr, Builder.asksOf, asks, List.append_assoc]
      exact answers_bind (answers_expr builder hidden condition) fun _ =>
        answers_bind (answers_block builder hidden then_) fun _ =>
          answers_last (answers_block builder hidden otherwise) fun _ => answers_pure _
  | block inner =>
      rw [Builder.expr, Builder.asksOf, asks]
      exact answers_block builder hidden inner
  | hashed value ty =>
      rw [Builder.expr, Builder.asksOf, asks]
      exact answers_bind (answers_expr builder true value) fun _ =>
        answers_last (answers_hashing ty) fun _ => answers_pure _
  | runtime name args ret =>
      rw [Builder.expr, Builder.asksOf, asks]
      split
      · exact answers_last (answers_firstOf builder hidden args) fun _ => answers_pure _
      · rw [Builder.named]
        cases RuntimeName.helper name with
        | none => exact answers_stop (.runtime name)
        | some helper =>
            have called : builder.Answers (askedAt hidden [.helper helper])
                (builder.runtimeCall helper ret) :=
              answers_last (answers_helper helper) fun _ => answers_pure _
            have ran : builder.Answers
                (asksAll builder.program builder.function builder.offers hidden args ++
                  askedAt hidden [.helper helper])
                (do
                  let values ← builder.widenedArgs args
                  let call ← builder.runtimeCall helper ret
                  pure (values ++ call) : Emit (List Ins)) :=
              answers_bind (answers_widenedArgs builder hidden args) fun _ =>
                answers_last called fun _ => answers_pure _
            exact ran
  | elementAt list index element =>
      rw [Builder.expr, Builder.asksOf, asks]
      exact answers_bind (answers_expr builder hidden list) fun _ =>
        answers_last (answers_expr builder hidden index) fun _ => answers_pure _

theorem answers_exprs (builder : Builder) (hidden : Bool) (es : List Expr) :
    builder.Answers (asksAll builder.program builder.function builder.offers hidden es)
      (builder.exprs es) := by
  cases es with
  | nil => rw [Builder.exprs, asksAll]; exact answers_pure _
  | cons first rest =>
      rw [Builder.exprs, asksAll]
      exact answers_bind (answers_expr builder hidden first) fun _ =>
        answers_last (answers_exprs builder hidden rest) fun _ => answers_pure _

theorem answers_firstOf (builder : Builder) (hidden : Bool) (es : List Expr) :
    builder.Answers (asksFirst builder.program builder.function builder.offers hidden es)
      (builder.firstOf es) := by
  cases es with
  | nil => rw [Builder.firstOf, asksFirst]; exact answers_fail .argument
  | cons first rest => rw [Builder.firstOf, asksFirst]; exact answers_expr builder hidden first

theorem answers_widenedArgs (builder : Builder) (hidden : Bool) (es : List Expr) :
    builder.Answers (asksAll builder.program builder.function builder.offers hidden es)
      (builder.widenedArgs es) := by
  cases es with
  | nil => rw [Builder.widenedArgs, asksAll]; exact answers_pure _
  | cons first rest =>
      rw [Builder.widenedArgs, asksAll]
      exact answers_bind (answers_expr builder hidden first) fun _ =>
        answers_last (answers_widenedArgs builder hidden rest) fun _ => answers_pure _

theorem answers_storeWords (builder : Builder) (hidden : Bool) (address : UInt32)
    (offset : Nat → Nat) (index : Nat) (es : List Expr) :
    builder.Answers (asksStored builder.program builder.function builder.offers hidden es)
      (builder.storeWords address offset index es) := by
  cases es with
  | nil => rw [Builder.storeWords, asksStored]; exact answers_pure _
  | cons first rest =>
      rw [Builder.storeWords, asksStored]
      exact answers_bind (answers_storeWord _ _ _ (answers_expr builder hidden first)) fun _ =>
        answers_last (answers_storeWords builder hidden address offset (index + 1) rest)
          fun _ => answers_pure _

theorem answers_storeFields (builder : Builder) (hidden : Bool) (into : UInt32) (e : Expr) :
    builder.Answers (asksFields builder.program builder.function builder.offers hidden e)
      (builder.storeFields into e) := by
  cases e
  case make layout variant fields =>
    rw [Builder.storeFields, asksFields]
    exact answers_storeWords builder hidden into _ 0 fields
  all_goals
    rw [Builder.storeFields, asksFields]
    · exact answers_pure _
    · exact fun _ _ _ => Expr.noConfusion
    · exact fun _ _ _ => Expr.noConfusion

theorem answers_block (builder : Builder) (hidden : Bool) (b : Block) :
    builder.Answers (asksBlock builder.program builder.function builder.offers hidden b)
      (builder.block b) := by
  cases b with
  | mk body value =>
      rw [Builder.block, asksBlock]
      exact answers_bind (answers_stmts builder hidden body) fun _ =>
        answers_last (answers_expr builder hidden value) fun _ => answers_pure _

theorem answers_stmt (builder : Builder) (hidden : Bool) (s : Stmt) :
    builder.Answers (asksStmt builder.program builder.function builder.offers hidden s)
      (builder.stmt s) := by
  cases s with
  | assign slot value =>
      rw [Builder.stmt, asksStmt]
      exact answers_last (answers_expr builder hidden value) fun _ => answers_pure _
  | discard value =>
      rw [Builder.stmt, asksStmt]
      exact answers_last (answers_expr builder hidden value) fun _ => answers_pure _
  | return_ value =>
      rw [Builder.stmt, asksStmt]
      exact answers_last (answers_expr builder hidden value) fun _ => answers_pure _
  | fail code message span =>
      rw [Builder.stmt, asksStmt]
      exact answers_next (answers_failure code message) fun _ =>
        answers_next (answers_mark _ _ _) fun _ => answers_pure _
  | while_ condition body =>
      rw [Builder.stmt, asksStmt]
      exact answers_bind (answers_expr builder hidden condition) fun _ =>
        answers_last (answers_stmts builder hidden body) fun _ => answers_pure _
  | setField object layout variant field value =>
      rw [Builder.stmt, asksStmt, Builder.tyOf]
      cases valType (tyIn builder.program builder.function value) with
      | none => exact answers_expr builder hidden value
      | some width =>
          exact answers_bind (answers_expr builder hidden object) fun _ =>
            answers_last (answers_expr builder hidden value) fun _ => answers_pure _

theorem answers_stmts (builder : Builder) (hidden : Bool) (body : List Stmt) :
    builder.Answers (asksStmts builder.program builder.function builder.offers hidden body)
      (builder.stmts body) := by
  cases body with
  | nil => rw [Builder.stmts, asksStmts]; exact answers_pure _
  | cons first rest =>
      rw [Builder.stmts, asksStmts]
      exact answers_bind (answers_stmt builder hidden first) fun _ =>
        answers_last (answers_stmts builder hidden rest) fun _ => answers_pure _

end

end Deed.Codegen
