import Deed.Codegen.Asking

/-!
# What the walk over a body sees

Whatever a body asks for outside of what is folded into a hash, it asks for at an expression
that the walk goes to.
-/

namespace Deed.Codegen

open Deed.Library
open Deed.Wasm Deed.Mir Deed.Runtime

/-- What an expression asks for itself, whatever its parts ask for. -/
def ownAsks (program : Program) (function : Function) : Expr → List Ask
  | .binary op left _ _ => operatorAsks op (tyIn program function left)
  | .callIndirect _ args ret _ => [callAsk program function args ret]
  | .install effect _ _ _ _ => [.installs effect]
  | .perform effect operation args ret =>
      [.performs effect operation, callAsk program function args ret]
  | .host name _ _ => [.host name]
  | .make _ _ _ => [.helper .grownMemory]
  | .list _ _ => [.helper .grownMemory]
  | .hashed _ ty => hashAsks ty
  | .runtime name _ _ =>
      match RuntimeName.helper name with
      | some helper => [.helper helper]
      | none => [.refused (.runtime name)]
  | _ => []

theorem mem_walkExpr (e : Expr) : e ∈ walkExpr e := by
  cases e <;> simp [walkExpr]

section Seeing

variable (program : Program) (function : Function)

/-- What no program can ask for. -/
def Ask.IsRefused : Ask → Prop
  | .refused _ => True
  | _ => False

/-- Each thing asked for is hidden, or refused, or is asked for by one of some expressions
itself. -/
def Seen (hidden : Bool) (asked : List Asked) (nodes : List Expr) : Prop :=
  ∀ entry ∈ asked, entry.hidden = true ∨
    (hidden = false ∧
      (entry.ask.IsRefused ∨ ∃ node ∈ nodes, entry.ask ∈ ownAsks program function node))

variable {program function} {hidden : Bool} {asked later : List Asked} {nodes more : List Expr}

theorem Seen.nil : Seen program function hidden [] nodes := by
  intro entry absent
  exact absurd absent List.not_mem_nil

theorem Seen.mono (seen : Seen program function hidden asked nodes) (fewer : nodes ⊆ more) :
    Seen program function hidden asked more := by
  intro entry present
  rcases seen entry present with covered | ⟨open_, refused | ⟨node, there, own⟩⟩
  · exact Or.inl covered
  · exact Or.inr ⟨open_, Or.inl refused⟩
  · exact Or.inr ⟨open_, Or.inr ⟨node, fewer there, own⟩⟩

theorem Seen.append (seen : Seen program function hidden asked nodes)
    (seen' : Seen program function hidden later nodes) :
    Seen program function hidden (asked ++ later) nodes := by
  intro entry present
  rcases List.mem_append.1 present with first | second
  · exact seen entry first
  · exact seen' entry second

/-- What an expression asks for itself is seen where the expression is. -/
theorem Seen.own {node : Expr} {asks : List Ask} (there : node ∈ nodes)
    (own : ∀ ask ∈ asks, ask.IsRefused ∨ ask ∈ ownAsks program function node) :
    Seen program function hidden (askedAt hidden asks) nodes := by
  intro entry present
  rcases List.mem_map.1 present with ⟨ask, listed, rfl⟩
  cases hidden with
  | true => exact Or.inl rfl
  | false =>
      rcases own ask listed with refused | its
      · exact Or.inr ⟨rfl, Or.inl refused⟩
      · exact Or.inr ⟨rfl, Or.inr ⟨node, there, its⟩⟩

/-- Everything in what is folded into a hash is hidden. -/
theorem Seen.covered (seen : Seen program function true asked nodes) :
    Seen program function hidden asked more := by
  intro entry present
  rcases seen entry present with covered | ⟨impossible, -⟩
  · exact Or.inl covered
  · cases impossible

theorem Seen.when (condition : Bool) (seen : Seen program function hidden asked nodes) :
    Seen program function hidden (if condition then asked else []) nodes := by
  cases condition with
  | true => exact seen
  | false => exact Seen.nil

end Seeing

section Walking

variable (program : Program) (function : Function) (offered : EffectId → Nat → Bool)

mutual

theorem seen_expr (hidden : Bool) (e : Expr) :
    Seen program function hidden (asks program function offered hidden e) (walkExpr e) := by
  cases e with
  | unit => rw [asks]; exact Seen.nil
  | bool value => rw [asks]; exact Seen.nil
  | int value => rw [asks]; exact Seen.nil
  | str text => rw [asks]; exact Seen.nil
  | local_ slot => rw [asks]; exact Seen.nil
  | unary op operand =>
      rw [asks, walkExpr]
      exact (seen_expr hidden operand).mono (List.subset_cons_self _ _)
  | binary op left right span =>
      rw [asks, walkExpr]
      refine (Seen.append ?_ ?_).append ?_
      · exact (seen_expr hidden left).mono (List.subset_cons_of_subset _
          (List.subset_append_left _ _))
      · exact (seen_expr hidden right).mono (List.subset_cons_of_subset _
          (List.subset_append_right _ _))
      · exact Seen.own List.mem_cons_self fun ask asks => Or.inr asks
  | call func args span =>
      rw [asks, walkExpr]
      exact (seen_exprs hidden args).mono (List.subset_cons_self _ _)
  | callIndirect callee args ret span =>
      rw [asks, walkExpr]
      have environment := (seen_expr hidden callee).mono (List.subset_cons_of_subset
        (.callIndirect callee args ret span) (List.subset_append_left _ (walkExprs args)))
      have values := (seen_exprs hidden args).mono (List.subset_cons_of_subset
        (.callIndirect callee args ret span) (List.subset_append_right (walkExpr callee) _))
      refine ((Seen.append ?_ environment).append values).append environment
      exact Seen.own List.mem_cons_self fun ask asks => Or.inr asks
  | install effect state operations body ty =>
      rw [asks, walkExpr]
      refine (Seen.append ?_ ?_).append ?_
      · exact Seen.own List.mem_cons_self fun ask asks => Or.inr asks
      · have inside := List.subset_cons_of_subset (.install effect state operations body ty)
          (List.subset_append_left (walkExpr state) (walkBlock body))
        split
        · exact (seen_fields hidden state).mono inside
        · exact (seen_expr hidden state).mono inside
      · exact (seen_block hidden body).mono (List.subset_cons_of_subset _
          (List.subset_append_right _ _))
  | perform effect operation args ret =>
      rw [asks, walkExpr]
      have values := (seen_exprs hidden args).mono (List.subset_cons_self
        (.perform effect operation args ret) _)
      refine ((Seen.append ?_ (values.when _)).append ?_).append values
      · refine Seen.own List.mem_cons_self fun ask asks => Or.inr ?_
        exact List.mem_cons.2 (Or.inl (List.mem_singleton.1 asks))
      · exact Seen.own List.mem_cons_self fun ask asks => Or.inr (List.mem_cons_of_mem _ asks)
  | host name args ret =>
      rw [asks, walkExpr]
      refine Seen.append ?_ ((seen_exprs hidden args).mono (List.subset_cons_self _ _))
      exact Seen.own List.mem_cons_self fun ask asks => Or.inr asks
  | make layout variant fields =>
      rw [asks, walkExpr]
      refine Seen.append ?_ ((seen_stored hidden fields).mono (List.subset_cons_self _ _))
      exact Seen.own List.mem_cons_self fun ask asks => Or.inr asks
  | field value layout variant field =>
      rw [asks, walkExpr]
      exact (seen_expr hidden value).mono (List.subset_cons_self _ _)
  | discriminant value layout =>
      rw [asks, walkExpr]
      exact (seen_expr hidden value).mono (List.subset_cons_self _ _)
  | list element items =>
      rw [asks, walkExpr]
      refine Seen.append ?_ ((seen_stored hidden items).mono (List.subset_cons_self _ _))
      exact Seen.own List.mem_cons_self fun ask asks => Or.inr asks
  | if_ condition then_ otherwise ty =>
      rw [asks, walkExpr]
      refine (Seen.append ?_ ?_).append ?_
      · exact (seen_expr hidden condition).mono (List.subset_cons_of_subset _
          (List.subset_append_of_subset_left _ (List.subset_append_left _ _)))
      · exact (seen_block hidden then_).mono (List.subset_cons_of_subset _
          (List.subset_append_of_subset_left _ (List.subset_append_right _ _)))
      · exact (seen_block hidden otherwise).mono (List.subset_cons_of_subset _
          (List.subset_append_right _ _))
  | block inner =>
      rw [asks, walkExpr]
      exact (seen_block hidden inner).mono (List.subset_cons_self _ _)
  | hashed value ty =>
      rw [asks]
      exact (seen_expr true value).covered.append
        (Seen.own (mem_walkExpr _) fun ask asks => Or.inr asks)
  | runtime name args ret =>
      rw [asks, walkExpr]
      split
      · exact (seen_first hidden args).mono (List.subset_cons_self _ _)
      · cases named : RuntimeName.helper name with
        | none =>
            refine Seen.own List.mem_cons_self fun ask asks => Or.inl ?_
            rw [List.mem_singleton.1 asks]
            exact trivial
        | some helper =>
            refine ((seen_exprs hidden args).mono (List.subset_cons_self _ _)).append
              (Seen.own List.mem_cons_self fun ask asks => Or.inr ?_)
            rw [ownAsks, named]
            exact asks
  | elementAt list index element =>
      rw [asks, walkExpr]
      exact ((seen_expr hidden list).mono (List.subset_cons_of_subset _
        (List.subset_append_left _ _))).append ((seen_expr hidden index).mono
          (List.subset_cons_of_subset _ (List.subset_append_right _ _)))

theorem seen_exprs (hidden : Bool) (es : List Expr) :
    Seen program function hidden (asksAll program function offered hidden es)
      (walkExprs es) := by
  cases es with
  | nil => rw [asksAll]; exact Seen.nil
  | cons first rest =>
      rw [asksAll, walkExprs]
      exact ((seen_expr hidden first).mono (List.subset_append_left _ _)).append
        ((seen_exprs hidden rest).mono (List.subset_append_right _ _))

theorem seen_first (hidden : Bool) (es : List Expr) :
    Seen program function hidden (asksFirst program function offered hidden es)
      (walkExprs es) := by
  cases es with
  | nil =>
      rw [asksFirst]
      intro entry present
      rw [List.mem_singleton.1 present]
      cases hidden with
      | true => exact Or.inl rfl
      | false => exact Or.inr ⟨rfl, Or.inl trivial⟩
  | cons first rest =>
      rw [asksFirst, walkExprs]
      exact (seen_expr hidden first).mono (List.subset_append_left _ _)

theorem seen_stored (hidden : Bool) (es : List Expr) :
    Seen program function hidden (asksStored program function offered hidden es)
      (walkExprs es) := by
  cases es with
  | nil => rw [asksStored]; exact Seen.nil
  | cons first rest =>
      rw [asksStored, walkExprs]
      exact (((seen_expr hidden first).mono (List.subset_append_left _ _)).when _).append
        ((seen_stored hidden rest).mono (List.subset_append_right _ _))

theorem seen_fields (hidden : Bool) (e : Expr) :
    Seen program function hidden (asksFields program function offered hidden e)
      (walkExpr e) := by
  cases e
  case make layout variant fields =>
    rw [asksFields, walkExpr]
    exact (seen_stored hidden fields).mono (List.subset_cons_self _ _)
  all_goals
    rw [asksFields]
    · exact Seen.nil
    · exact fun _ _ _ => Expr.noConfusion

theorem seen_block (hidden : Bool) (b : Block) :
    Seen program function hidden (asksBlock program function offered hidden b)
      (walkBlock b) := by
  cases b with
  | mk body value =>
      rw [asksBlock, walkBlock]
      exact ((seen_stmts hidden body).mono (List.subset_append_left _ _)).append
        ((seen_expr hidden value).mono (List.subset_append_right _ _))

theorem seen_stmt (hidden : Bool) (s : Stmt) :
    Seen program function hidden (asksStmt program function offered hidden s)
      (walkStmt s) := by
  cases s with
  | assign slot value => rw [asksStmt, walkStmt]; exact seen_expr hidden value
  | discard value => rw [asksStmt, walkStmt]; exact seen_expr hidden value
  | return_ value => rw [asksStmt, walkStmt]; exact seen_expr hidden value
  | fail code message span => rw [asksStmt]; exact Seen.nil
  | while_ condition body =>
      rw [asksStmt, walkStmt]
      exact ((seen_expr hidden condition).mono (List.subset_append_left _ _)).append
        ((seen_stmts hidden body).mono (List.subset_append_right _ _))
  | setField object layout variant field value =>
      rw [asksStmt, walkStmt]
      exact (((seen_expr hidden object).mono (List.subset_append_left _ _)).when _).append
        ((seen_expr hidden value).mono (List.subset_append_right _ _))

theorem seen_stmts (hidden : Bool) (body : List Stmt) :
    Seen program function hidden (asksStmts program function offered hidden body)
      (walkStmts body) := by
  cases body with
  | nil => rw [asksStmts]; exact Seen.nil
  | cons first rest =>
      rw [asksStmts, walkStmts]
      exact ((seen_stmt hidden first).mono (List.subset_append_left _ _)).append
        ((seen_stmts hidden rest).mono (List.subset_append_right _ _))

end

end Walking

end Deed.Codegen
