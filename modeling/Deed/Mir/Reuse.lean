import Deed.Mir.Program

/-!
# What a function does with each of its parameters

The analysis of `crates/deed-mir/src/reuse.rs`: whether what a function returns may reach
the storage a parameter arrived in, and whether that storage may outlive the call some other
way.  A summary of every function is read off its body with the summaries of what it calls,
round after round.
-/

namespace Deed.Mir

/-- What one function does with one of its parameters. -/
structure ParamUse where
  /-- The returned value may be, or may reach, this parameter's storage. -/
  sharedWithResult : Bool
  /-- The storage may outlive the call by some route other than the result. -/
  retained : Bool
deriving DecidableEq, Repr

/-- The answer for a parameter nothing could be worked out about. -/
def ParamUse.KEEPS : ParamUse := ⟨true, true⟩

/-- The answer for a parameter whose storage the call is finished with, and the default. -/
def ParamUse.RELEASES : ParamUse := ⟨false, false⟩

def ParamUse.widen (use other : ParamUse) : ParamUse :=
  ⟨use.sharedWithResult || other.sharedWithResult, use.retained || other.retained⟩

/-- What a function does with every parameter it has. -/
structure Summary where
  params : List ParamUse
deriving DecidableEq, Repr

def Summary.param (summary : Summary) (index : Nat) : ParamUse :=
  summary.params.getD index .KEEPS

/-- Which parameters a value may have come from. -/
abbrev From := List Nat

def union (into other : From) : From :=
  other.foldl (fun into param => if into.contains param then into else into ++ [param]) into

/-- Everything that some of the values come from, picked by their positions. -/
def gather (picked : Nat → Bool) (values : List From) : From :=
  values.zipIdx.foldl (fun all value => if picked value.2 then union all value.1 else all) []

/-- Whether the result of a runtime helper may reach its argument at `at`.  Every name that
the runtime publishes has an answer. -/
def helperResultReaches (name : RuntimeName) (at_ : Nat) : Bool :=
  match name with
  | .strEq | .strCmp | .strLen | .listLen | .contractFailed => false
  | .strToInt => false
  | .strConcat | .strTrim | .strUpper | .strLower | .intToStr => false
  | .strSplit => false
  | .strJoin => false
  | .listPush | .listRoomFrom | .listRepeat => true
  | .listNew | .listRoom => false
  | .listAppend => true
  | .listAt => at_ == 0

/-- What a walk over a body keeps: what each slot may hold, by parameter, and what it found
so far. -/
structure Walked where
  slots : Local → From
  found : Summary

/-- A step of the walk. -/
abbrev Walk := StateM Walked

namespace Walk

section

variable (program : Program) (function : Function) (known : List Summary)

/-- Marks every parameter a value comes from. -/
def mark (how : ParamUse) (value : From) : Walk Unit :=
  modify fun walked => { walked with
    found := ⟨value.foldl (fun params param => params.modify param (·.widen how))
      walked.found.params⟩ }

/-- What the function hands back, unless that is a number. -/
def returns (value : From) : Walk Unit :=
  if function.ret.isBoxed then mark ⟨true, false⟩ value else pure ()

def retain (value : From) : Walk Unit := mark ⟨false, true⟩ value

/-- What is called, by its identifier; identifiers are made by adding a function. -/
def summaryOf (func : FuncId) : Summary := known.getD func ⟨[]⟩

mutual

def expr : Expr → Walk From
  | .unit | .bool _ | .int _ | .str _ => pure []
  | .local_ slot => return (← get).slots slot
  | .unary _ operand => do
      let _ ← expr operand
      return []
  | .binary _ left right _ => do
      let _ ← expr left
      let _ ← expr right
      return []
  | .call func args _ => do
      let values ← exprs args
      let summary := summaryOf known func
      retain (gather (fun at_ => (summary.param at_).retained) values)
      return gather (fun at_ => (summary.param at_).sharedWithResult) values
  -- No name, so no summary: everything handed over is answered "keeps it".
  | .callIndirect callee args _ _ => do
      let from_ ← expr callee
      let values ← exprs args
      let all := gather (fun _ => true) (from_ :: values)
      retain all
      return all
  | .perform _ _ args _ => do
      let values ← exprs args
      let all := gather (fun _ => true) values
      retain all
      return all
  | .host _ args _ => do
      let values ← exprs args
      let all := gather (fun _ => true) values
      retain all
      return all
  | .runtime name args ret => do
      let values ← exprs args
      return gather (fun at_ => ret.isBoxed && helperResultReaches name at_) values
  -- New storage, holding what it was given.
  | .make layout variant fields => do
      let types := ((program.layout layout).variants.getD variant ⟨"", []⟩).fields.map
        (·.ty.isBoxed)
      let values ← exprs fields
      return gather (fun at_ => types.getD at_ true) values
  | .list element items => do
      let values ← exprs items
      return gather (fun _ => element.isBoxed) values
  | .field value layout variant field => do
      let from_ ← expr value
      let boxed := (((program.layout layout).variants[variant]?).bind
        fun variant => variant.fields[field]?).elim true (·.ty.isBoxed)
      return if boxed then from_ else []
  | .elementAt list index element => do
      let _ ← expr index
      let from_ ← expr list
      return if element.isBoxed then from_ else []
  | .discriminant value _ => do
      let _ ← expr value
      return []
  | .hashed value _ => do
      let _ ← expr value
      return []
  | .if_ condition then_ otherwise _ => do
      let _ ← expr condition
      let all ← block then_
      let other ← block otherwise
      return union all other
  | .block inner => block inner
  -- The cell outlives the block.
  | .install _ state _ body _ => do
      let from_ ← expr state
      retain from_
      block body

def exprs : List Expr → Walk (List From)
  | [] => pure []
  | first :: rest => do
      let value ← expr first
      let values ← exprs rest
      return value :: values

def block : Block → Walk From
  | .mk stmts_ value => do
      stmts stmts_
      expr value

def stmt : Stmt → Walk Unit
  | .assign slot value => do
      let from_ ← expr value
      modify fun walked => { walked with slots := Function.update walked.slots slot from_ }
  | .discard value => do
      let _ ← expr value
      return ()
  | .return_ value => do
      let from_ ← expr value
      returns function from_
  | .fail _ _ _ => pure ()
  -- Twice, because a slot written on one turn is read on the next.
  | .while_ condition body => do
      let _ ← expr condition
      stmts body
      let _ ← expr condition
      stmts body
  -- The only write to something already built, and it is a handler's state.
  | .setField object _ _ _ value => do
      let _ ← expr object
      let from_ ← expr value
      retain from_

def stmts : List Stmt → Walk Unit
  | [] => pure ()
  | first :: rest => do
      stmt first
      stmts rest

end

/-- What a walk starts with: a boxed parameter is in its own slot. -/
def new : Walked where
  slots := fun at_ =>
    match function.params[at_]? with
    | some ty => if ty.isBoxed then [at_] else []
    | none => []
  found := ⟨List.replicate function.params.length .RELEASES⟩

/-- What one function does with its parameters, as far as is known of the others. -/
def summarise : Summary :=
  let whole : Walk Unit := do
    let value ← block program function known function.body
    returns function value
  (whole.run (new function)).2.found

end

end Walk

/-- Adds what one function is found to do. -/
def widenAt (program : Program) (index : FuncId) (of : List Summary) : List Summary :=
  match program.functions[index]? with
  | some function =>
      of.modify index fun summary =>
        ⟨List.zipWith ParamUse.widen summary.params (Walk.summarise program function of).params⟩
  | none => of

/-- One round: every function in its turn, each with what the ones before it added. -/
def summariseRound (program : Program) (of : List Summary) : List Summary :=
  (List.range program.functions.length).foldl (fun of index => widenAt program index of) of

/-- Rounds until nothing moves, and so many at most. -/
def summariseRounds (program : Program) : Nat → List Summary → List Summary
  | 0, of => of
  | rounds + 1, before =>
      let of := summariseRound program before
      if of = before then of else summariseRounds program rounds of

/-- Before any round, nothing is known to be done with a parameter. -/
def summariseStart (program : Program) : List Summary :=
  program.functions.map fun function =>
    ⟨function.params.map fun ty => if ty.isBoxed then .RELEASES else .RELEASES⟩

/-- What every function in the program does with its parameters: a round for each function,
and one more. -/
def summarise (program : Program) : List Summary :=
  summariseRounds program (program.functions.length + 1) (summariseStart program)

end Deed.Mir
