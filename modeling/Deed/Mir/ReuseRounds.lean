import Deed.Library.Rounds
import Deed.Mir.Reuse

/-!
# Whether the summaries have settled

The walk over a body finds more when more is known of what it calls.  So the rounds over the
functions come to the least summaries that a further round leaves as they are, where they come
to rest at all: every answer takes as many rounds as its derivation turns back.
-/

namespace Deed.Mir

open Deed.Library.Rounds

/-! ## More is found where more is known -/

theorem mem_union {into other : From} {param : Nat} :
    param ∈ union into other ↔ param ∈ into ∨ param ∈ other := by
  induction other generalizing into with
  | nil => simp [union]
  | cons first rest ih =>
      have one : param ∈ (if into.contains first then into else into ++ [first]) ↔
          param ∈ into ∨ param = first := by
        split
        · next known =>
            rw [List.contains_iff_mem] at known
            constructor
            · exact Or.inl
            · rintro (inside | rfl)
              · exact inside
              · exact known
        · rw [List.mem_append, List.mem_singleton]
      show param ∈ union _ rest ↔ _
      rw [ih, one, List.mem_cons, or_assoc]

theorem mem_gather {picked : Nat → Bool} {values : List From} {param : Nat} :
    param ∈ gather picked values ↔
      ∃ pair ∈ values.zipIdx, picked pair.2 = true ∧ param ∈ pair.1 := by
  have whole : ∀ (pairs : List (From × Nat)) (all : From),
      param ∈ pairs.foldl (fun all value => if picked value.2 then union all value.1 else all)
        all ↔ param ∈ all ∨ ∃ pair ∈ pairs, picked pair.2 = true ∧ param ∈ pair.1 := by
    intro pairs
    induction pairs with
    | nil => simp
    | cons first rest ih =>
        intro all
        rw [List.foldl_cons, ih, List.exists_mem_cons_iff]
        by_cases taken : picked first.2 = true
        · simp only [taken, if_true, mem_union, true_and, or_assoc]
        · simp only [Bool.eq_false_iff.2 taken, Bool.false_eq_true, if_false, false_and,
            false_or]
  rw [gather, whole]
  simp

/-- One use answers no more than another. -/
def ParamUse.Below (use other : ParamUse) : Prop :=
  (use.sharedWithResult = true → other.sharedWithResult = true) ∧
    (use.retained = true → other.retained = true)

def Summary.Below (summary other : Summary) : Prop :=
  List.Forall₂ ParamUse.Below summary.params other.params

theorem ParamUse.Below.refl (use : ParamUse) : use.Below use := ⟨id, id⟩

theorem Summary.Below.refl (summary : Summary) : summary.Below summary :=
  List.forall₂_same.2 fun use _ => .refl use

theorem ParamUse.Below.widen {use other : ParamUse} (below : use.Below other)
    (how : ParamUse) : (use.widen how).Below (other.widen how) := by
  simp only [ParamUse.Below, ParamUse.widen, Bool.or_eq_true]
  exact ⟨Or.imp_left below.1, Or.imp_left below.2⟩

theorem ParamUse.Below.widened {use other : ParamUse} (below : use.Below other)
    (how : ParamUse) : use.Below (other.widen how) := by
  simp only [ParamUse.Below, ParamUse.widen, Bool.or_eq_true]
  exact ⟨fun shared => Or.inl (below.1 shared), fun retained => Or.inl (below.2 retained)⟩

theorem Summary.Below.param {summary other : Summary} (below : summary.Below other)
    (index : Nat) : (summary.param index).Below (other.param index) := by
  have length := List.Forall₂.length_eq below
  rw [Summary.param, Summary.param, List.getD_eq_getElem?_getD, List.getD_eq_getElem?_getD]
  by_cases inside : index < summary.params.length
  · rw [List.getElem?_eq_getElem inside, List.getElem?_eq_getElem (length ▸ inside)]
    exact List.Forall₂.get below inside (length ▸ inside)
  · rw [List.getElem?_eq_none (by omega), List.getElem?_eq_none (by omega)]
    exact .refl _

/-- Two states of a walk over a function of `count` parameters, the first of which has found
no more. -/
structure Walked.Below (count : Nat) (walked other : Walked) : Prop where
  slots : ∀ slot, walked.slots slot ⊆ other.slots slot
  found : walked.found.Below other.found
  length : other.found.params.length = count

/-- Two steps of a walk, the first of which finds no more wherever it starts from no more. -/
def Raises {α : Type} (count : Nat) (same : α → α → Prop) (step other : Walk α) : Prop :=
  ∀ walked further : Walked, walked.Below count further →
    same (step.run walked).1 (other.run further).1 ∧
      (step.run walked).2.Below count (other.run further).2

section Raises

variable {α β : Type} {count : Nat} {same : α → α → Prop} {same' : β → β → Prop}

theorem Raises.pure {value other : α} (alike : same value other) :
    Raises count same (pure value) (Pure.pure other) :=
  fun _ _ below => ⟨alike, below⟩

theorem Raises.bind {step other : Walk α} {next next' : α → Walk β}
    (first : Raises count same step other)
    (rest : ∀ value further, same value further →
      Raises count same' (next value) (next' further)) :
    Raises count same' (step >>= next) (other >>= next') := by
  intro walked further below
  obtain ⟨alike, after⟩ := first walked further below
  exact rest _ _ alike _ _ after

end Raises

/-- What marking some parameters makes of a list of uses. -/
def marked (how : ParamUse) (value : From) (params : List ParamUse) : List ParamUse :=
  value.foldl (fun params param => params.modify param (·.widen how)) params

theorem ParamUse.widen_widen (use how : ParamUse) :
    (use.widen how).widen how = use.widen how := by
  simp [ParamUse.widen]

theorem length_marked (how : ParamUse) (value : From) (params : List ParamUse) :
    (marked how value params).length = params.length := by
  induction value generalizing params with
  | nil => rfl
  | cons first rest ih =>
      show (marked how rest _).length = _
      rw [ih, List.length_modify]

theorem getElem?_marked (how : ParamUse) (value : From) (params : List ParamUse)
    (index : Nat) :
    (marked how value params)[index]? =
      params[index]?.map fun use => if index ∈ value then use.widen how else use := by
  induction value generalizing params with
  | nil => simp [marked]
  | cons first rest ih =>
      show (marked how rest _)[index]? = _
      rw [ih, List.getElem?_modify, Option.map_eq_map, Option.map_map]
      congr 1
      funext use
      simp only [Function.comp_apply, List.mem_cons, eq_comm (a := index)]
      by_cases here : first = index
      · simp only [here, if_true, true_or]
        split
        · exact use.widen_widen how
        · rfl
      · simp only [here, if_false, false_or]

theorem marked_below (how : ParamUse) {value other : From} {params more : List ParamUse}
    (less : value ⊆ other) (below : List.Forall₂ ParamUse.Below params more) :
    List.Forall₂ ParamUse.Below (marked how value params) (marked how other more) := by
  rw [List.forall₂_iff_get]
  refine ⟨?_, ?_⟩
  · rw [length_marked, length_marked]
    exact below.length_eq
  · intro index inside inside'
    rw [length_marked] at inside inside'
    have first := getElem?_marked how value params index
    have second := getElem?_marked how other more index
    rw [List.getElem?_eq_getElem inside, Option.map_some,
      List.getElem?_eq_getElem (by rwa [length_marked]), Option.some_inj] at first
    rw [List.getElem?_eq_getElem inside', Option.map_some,
      List.getElem?_eq_getElem (by rwa [length_marked]), Option.some_inj] at second
    rw [List.get_eq_getElem, List.get_eq_getElem, first, second]
    have use := List.Forall₂.get below inside inside'
    by_cases here : index ∈ value
    · rw [if_pos here, if_pos (less here)]
      exact use.widen how
    · rw [if_neg here]
      split
      · exact use.widened how
      · exact use

section Walks

variable {count : Nat}

/-- Marking parameters, more of them in the second walk. -/
theorem raises_mark (how : ParamUse) {value other : From} (less : value ⊆ other) :
    Raises count (fun _ _ => True) (Walk.mark how value) (Walk.mark how other) := by
  intro walked further below
  refine ⟨trivial, below.slots, marked_below how less below.found, ?_⟩
  show (marked how other further.found.params).length = count
  rw [length_marked]
  exact below.length

theorem raises_returns {function : Function} {value other : From} (less : value ⊆ other) :
    Raises count (fun _ _ => True) (Walk.returns function value)
      (Walk.returns function other) := by
  rw [Walk.returns, Walk.returns]
  split
  · exact raises_mark _ less
  · exact .pure trivial

/-- Several values, each of which comes from no more. -/
def Froms (values others : List From) : Prop := List.Forall₂ (· ⊆ ·) values others

theorem gather_below {picked more : Nat → Bool} {values others : List From}
    (less : ∀ at_, picked at_ = true → more at_ = true) (below : Froms values others) :
    gather picked values ⊆ gather more others := by
  intro param inside
  rw [mem_gather] at inside ⊢
  obtain ⟨⟨value, at_⟩, there, taken, from_⟩ := inside
  have found : values[at_]? = some value := List.mem_zipIdx_iff_getElem?.1 there
  obtain ⟨early, rfl⟩ := List.getElem?_eq_some_iff.1 found
  have early' : at_ < others.length := below.length_eq ▸ early
  refine ⟨(others[at_], at_), ?_, less at_ taken, ?_⟩
  · rw [List.mem_zipIdx_iff_getElem?]
    exact List.getElem?_eq_getElem early'
  · exact List.Forall₂.get below early early' from_

/-- What is known of the functions, and no less. -/
def KnownBelow (known more : List Summary) : Prop := List.Forall₂ Summary.Below known more

theorem summaryOf_below {known more : List Summary} (below : KnownBelow known more)
    (func : FuncId) : (Walk.summaryOf known func).Below (Walk.summaryOf more func) := by
  rw [Walk.summaryOf, Walk.summaryOf, List.getD_eq_getElem?_getD, List.getD_eq_getElem?_getD]
  by_cases inside : func < known.length
  · rw [List.getElem?_eq_getElem inside,
      List.getElem?_eq_getElem (below.length_eq ▸ inside)]
    exact List.Forall₂.get below inside (below.length_eq ▸ inside)
  · have past := Nat.le_of_not_lt inside
    rw [List.getElem?_eq_none past, List.getElem?_eq_none (below.length_eq ▸ past)]
    exact .refl _

variable {program : Program} {function : Function} {known more : List Summary}

/-- What is handed over to something unknown is kept, and may come back. -/
theorem raises_kept {values others : List From} (below : Froms values others) :
    Raises count (· ⊆ ·)
      (do
        Walk.retain (gather (fun _ => true) values)
        return gather (fun _ => true) values)
      (do
        Walk.retain (gather (fun _ => true) others)
        return gather (fun _ => true) others) := by
  have all : gather (fun _ => true) values ⊆ gather (fun _ => true) others :=
    gather_below (fun _ => id) below
  exact (raises_mark _ all).bind fun _ _ _ => .pure all

mutual

/-- The walk over an expression finds no more where no more is known. -/
theorem raises_expr (below : KnownBelow known more) : ∀ expr : Expr,
    Raises count (· ⊆ ·) (Walk.expr program function known expr)
      (Walk.expr program function more expr)
  | .unit | .bool _ | .int _ | .str _ => by
      rw [Walk.expr, Walk.expr]
      exact .pure (List.Subset.refl _)
  | .local_ slot => by
      rw [Walk.expr, Walk.expr]
      intro walked further walkedBelow
      exact ⟨walkedBelow.slots slot, walkedBelow⟩
  | .unary _ operand => by
      rw [Walk.expr, Walk.expr]
      exact (raises_expr below operand).bind fun _ _ _ => .pure (List.Subset.refl _)
  | .binary _ left right _ => by
      rw [Walk.expr, Walk.expr]
      refine (raises_expr below left).bind fun _ _ _ => ?_
      exact (raises_expr below right).bind fun _ _ _ => .pure (List.Subset.refl _)
  | .call func args _ => by
      rw [Walk.expr, Walk.expr]
      have use := (summaryOf_below below func).param
      refine (raises_exprs below args).bind fun values others froms => ?_
      refine (raises_mark _ (gather_below (fun at_ => (use at_).2) froms)).bind fun _ _ _ => ?_
      exact .pure (gather_below (fun at_ => (use at_).1) froms)
  | .callIndirect callee args _ _ => by
      rw [Walk.expr, Walk.expr]
      refine (raises_expr below callee).bind fun value other from_ => ?_
      refine (raises_exprs below args).bind fun values others froms => ?_
      exact raises_kept (.cons from_ froms)
  | .perform _ _ args _ => by
      rw [Walk.expr, Walk.expr]
      exact (raises_exprs below args).bind fun _ _ froms => raises_kept froms
  | .host _ args _ => by
      rw [Walk.expr, Walk.expr]
      exact (raises_exprs below args).bind fun _ _ froms => raises_kept froms
  | .runtime name args ret => by
      rw [Walk.expr, Walk.expr]
      refine (raises_exprs below args).bind fun values others froms => ?_
      exact .pure (gather_below (fun _ => id) froms)
  | .make layout variant fields => by
      rw [Walk.expr, Walk.expr]
      refine (raises_exprs below fields).bind fun values others froms => ?_
      exact .pure (gather_below (fun _ => id) froms)
  | .list element items => by
      rw [Walk.expr, Walk.expr]
      refine (raises_exprs below items).bind fun values others froms => ?_
      exact .pure (gather_below (fun _ => id) froms)
  | .field value layout variant field => by
      rw [Walk.expr, Walk.expr]
      refine (raises_expr below value).bind fun value other from_ => .pure ?_
      split
      · exact from_
      · exact List.Subset.refl _
  | .elementAt list index element => by
      rw [Walk.expr, Walk.expr]
      refine (raises_expr below index).bind fun _ _ _ => ?_
      refine (raises_expr below list).bind fun value other from_ => .pure ?_
      split
      · exact from_
      · exact List.Subset.refl _
  | .discriminant value _ => by
      rw [Walk.expr, Walk.expr]
      exact (raises_expr below value).bind fun _ _ _ => .pure (List.Subset.refl _)
  | .hashed value _ => by
      rw [Walk.expr, Walk.expr]
      exact (raises_expr below value).bind fun _ _ _ => .pure (List.Subset.refl _)
  | .if_ condition then_ otherwise _ => by
      rw [Walk.expr, Walk.expr]
      refine (raises_expr below condition).bind fun _ _ _ => ?_
      refine (raises_block below then_).bind fun all all' first => ?_
      refine (raises_block below otherwise).bind fun other other' second => .pure ?_
      intro param inside
      rw [mem_union] at inside ⊢
      exact inside.imp (fun there => first there) fun there => second there
  | .block inner => by
      rw [Walk.expr, Walk.expr]
      exact raises_block below inner
  | .install _ state _ body _ => by
      rw [Walk.expr, Walk.expr]
      refine (raises_expr below state).bind fun _ _ from_ => ?_
      exact (raises_mark _ from_).bind fun _ _ _ => raises_block below body

theorem raises_exprs (below : KnownBelow known more) : ∀ exprs : List Expr,
    Raises count Froms (Walk.exprs program function known exprs)
      (Walk.exprs program function more exprs)
  | [] => by
      rw [Walk.exprs, Walk.exprs]
      exact .pure .nil
  | first :: rest => by
      rw [Walk.exprs, Walk.exprs]
      refine (raises_expr below first).bind fun _ _ from_ => ?_
      exact (raises_exprs below rest).bind fun _ _ froms => .pure (.cons from_ froms)

theorem raises_block (below : KnownBelow known more) : ∀ block : Block,
    Raises count (· ⊆ ·) (Walk.block program function known block)
      (Walk.block program function more block)
  | .mk stmts value => by
      rw [Walk.block, Walk.block]
      exact (raises_stmts below stmts).bind fun _ _ _ => raises_expr below value

theorem raises_stmt (below : KnownBelow known more) : ∀ stmt : Stmt,
    Raises count (fun _ _ => True) (Walk.stmt program function known stmt)
      (Walk.stmt program function more stmt)
  | .assign slot value => by
      rw [Walk.stmt, Walk.stmt]
      refine (raises_expr below value).bind fun from_ from_' less => ?_
      intro walked further walkedBelow
      refine ⟨trivial, fun other => ?_, walkedBelow.found, walkedBelow.length⟩
      show Function.update walked.slots slot from_ other ⊆
        Function.update further.slots slot from_' other
      rw [Function.update_apply, Function.update_apply]
      split
      · exact less
      · exact walkedBelow.slots other
  | .discard value => by
      rw [Walk.stmt, Walk.stmt]
      exact (raises_expr below value).bind fun _ _ _ => .pure trivial
  | .return_ value => by
      rw [Walk.stmt, Walk.stmt]
      exact (raises_expr below value).bind fun _ _ from_ => raises_returns from_
  | .fail _ _ _ => by
      rw [Walk.stmt, Walk.stmt]
      exact .pure trivial
  | .while_ condition body => by
      rw [Walk.stmt, Walk.stmt]
      refine (raises_expr below condition).bind fun _ _ _ => ?_
      refine (raises_stmts below body).bind fun _ _ _ => ?_
      refine (raises_expr below condition).bind fun _ _ _ => ?_
      exact raises_stmts below body
  | .setField object _ _ _ value => by
      rw [Walk.stmt, Walk.stmt]
      refine (raises_expr below object).bind fun _ _ _ => ?_
      exact (raises_expr below value).bind fun _ _ from_ => raises_mark _ from_

theorem raises_stmts (below : KnownBelow known more) : ∀ stmts : List Stmt,
    Raises count (fun _ _ => True) (Walk.stmts program function known stmts)
      (Walk.stmts program function more stmts)
  | [] => by
      rw [Walk.stmts, Walk.stmts]
      exact .pure trivial
  | first :: rest => by
      rw [Walk.stmts, Walk.stmts]
      exact (raises_stmt below first).bind fun _ _ _ => raises_stmts below rest

end

/-- What one function is found to do grows with what is known of the others. -/
theorem summarise_below (program : Program) (function : Function)
    (below : KnownBelow known more) :
    (Walk.summarise program function known).Below (Walk.summarise program function more) ∧
      (Walk.summarise program function more).params.length = function.params.length := by
  have start : (Walk.new function).Below function.params.length (Walk.new function) :=
    ⟨fun _ => List.Subset.refl _, .refl _, List.length_replicate⟩
  have whole : Raises function.params.length (fun _ _ => True)
      (Walk.block program function known function.body >>= Walk.returns function)
      (Walk.block program function more function.body >>= Walk.returns function) :=
    (raises_block below function.body).bind fun _ _ from_ => raises_returns from_
  have ends := (whole _ _ start).2
  exact ⟨ends.found, ends.length⟩

end Walks

/-! ## The rounds over the functions -/

/-- One thing to answer about a parameter of a function: whether its storage is retained, or
whether it is shared with the result. -/
structure Answer where
  func : FuncId
  param : Nat
  retained : Bool

def ParamUse.tells (use : ParamUse) (retained : Bool) : Bool :=
  if retained then use.retained else use.sharedWithResult

/-- The summaries answer yes. -/
def Tells (of : List Summary) (answer : Answer) : Prop :=
  ∃ summary, of[answer.func]? = some summary ∧
    ∃ use, summary.params[answer.param]? = some use ∧ use.tells answer.retained = true

/-- One summary for each function, and in it one use for each parameter. -/
def Shaped (program : Program) (of : List Summary) : Prop :=
  List.Forall₂ (fun summary function => summary.params.length = function.params.length) of
    program.functions

/-- The summaries of a program's functions. -/
structure Summaries (program : Program) where
  of : List Summary
  shaped : Shaped program of

section Rounds

variable {program : Program} {of : List Summary}

theorem Shaped.length (shaped : Shaped program of) : of.length = program.functions.length :=
  List.Forall₂.length_eq shaped

theorem Shaped.found (shaped : Shaped program of) {index : Nat} {summary : Summary}
    (found : of[index]? = some summary) :
    ∃ function, program.functions[index]? = some function ∧
      summary.params.length = function.params.length := by
  obtain ⟨inside, rfl⟩ := List.getElem?_eq_some_iff.1 found
  have inside' : index < program.functions.length := shaped.length ▸ inside
  exact ⟨_, List.getElem?_eq_getElem inside', List.Forall₂.get shaped inside inside'⟩

theorem Shaped.widenAt (shaped : Shaped program of) (index : FuncId) :
    Shaped program (widenAt program index of) := by
  rw [Mir.widenAt]
  split
  · next function found =>
      rw [Shaped, List.forall₂_iff_get]
      refine ⟨by rw [List.length_modify]; exact shaped.length, ?_⟩
      intro other inside inside'
      rw [List.length_modify] at inside
      have length := List.Forall₂.get shaped inside inside'
      rw [List.get_eq_getElem, List.getElem_modify]
      split
      · next here =>
          subst here
          obtain ⟨_, same⟩ := List.getElem?_eq_some_iff.1 found
          have walked := (summarise_below program function
            (List.forall₂_same.2 fun summary _ => Summary.Below.refl summary :
              KnownBelow of of)).2
          rw [List.length_zipWith, walked]
          rw [List.get_eq_getElem, List.get_eq_getElem, same] at length
          rw [List.get_eq_getElem, same, length, Nat.min_self]
      · exact length
  · exact shaped

theorem ParamUse.below_iff {use other : ParamUse} :
    use.Below other ↔ ∀ retained, use.tells retained = true → other.tells retained = true := by
  constructor
  · intro below retained
    cases retained with
    | false => exact below.1
    | true => exact below.2
  · exact fun tells => ⟨tells false, tells true⟩

theorem ParamUse.tells_widen (use other : ParamUse) (retained : Bool) :
    (use.widen other).tells retained = true ↔
      use.tells retained = true ∨ other.tells retained = true := by
  cases retained with
  | false => exact Bool.or_eq_true _ _ ▸ Iff.rfl
  | true => exact Bool.or_eq_true _ _ ▸ Iff.rfl

theorem tells_of_summary {summary : Summary} {use : ParamUse} {func param : Nat}
    {retained : Bool} (found : of[func]? = some summary)
    (used : summary.params[param]? = some use) :
    Tells of ⟨func, param, retained⟩ ↔ use.tells retained = true := by
  constructor
  · rintro ⟨summary', found', use', used', tells⟩
    rw [← Option.some_inj.1 (found.symm.trans found')] at used'
    rwa [← Option.some_inj.1 (used.symm.trans used')] at tells
  · exact fun tells => ⟨summary, found, use, used, tells⟩

/-- One knows no more than the other exactly when it answers yes no more often. -/
theorem knownBelow_iff {known more : List Summary} (shaped : Shaped program known)
    (shaped' : Shaped program more) :
    KnownBelow known more ↔ ∀ answer, Tells known answer → Tells more answer := by
  constructor
  · rintro below ⟨func, param, retained⟩ ⟨summary, found, use, used, tells⟩
    obtain ⟨inside, rfl⟩ := List.getElem?_eq_some_iff.1 found
    obtain ⟨early, rfl⟩ := List.getElem?_eq_some_iff.1 used
    have inside' : func < more.length := below.length_eq ▸ inside
    have summaries : known[func].Below more[func] := List.Forall₂.get below inside inside'
    have early' : param < more[func].params.length :=
      List.Forall₂.length_eq summaries ▸ early
    have uses : ParamUse.Below _ _ := List.Forall₂.get summaries early early'
    exact ⟨_, List.getElem?_eq_getElem inside', _, List.getElem?_eq_getElem early',
      ParamUse.below_iff.1 uses retained tells⟩
  · intro tells
    rw [KnownBelow, List.forall₂_iff_get]
    refine ⟨shaped.length.trans shaped'.length.symm, fun func inside inside' => ?_⟩
    obtain ⟨function, declared, length⟩ := shaped.found (List.getElem?_eq_getElem inside)
    obtain ⟨function', declared', length'⟩ := shaped'.found (List.getElem?_eq_getElem inside')
    rw [Option.some_inj.1 (declared.symm.trans declared')] at length
    rw [Summary.Below, List.forall₂_iff_get]
    refine ⟨length.trans length'.symm, fun param early early' => ?_⟩
    rw [ParamUse.below_iff]
    intro retained yes
    have found : Tells known ⟨func, param, retained⟩ :=
      ⟨_, List.getElem?_eq_getElem inside, _, List.getElem?_eq_getElem early, yes⟩
    exact (tells_of_summary (List.getElem?_eq_getElem inside')
      (List.getElem?_eq_getElem early')).1 (tells _ found)

/-- The walk over the function that an answer is about finds it. -/
def Finds (program : Program) (of : List Summary) (answer : Answer) : Prop :=
  ∃ function, program.functions[answer.func]? = some function ∧
    ∃ use, (Walk.summarise program function of).params[answer.param]? = some use ∧
      use.tells answer.retained = true

theorem length_summarise (function : Function) :
    (Walk.summarise program function of).params.length = function.params.length :=
  (summarise_below program function
    (List.forall₂_same.2 fun summary _ => Summary.Below.refl summary :
      KnownBelow of of)).2

/-- A function's turn in a round adds what its walk finds. -/
theorem tells_widenAt (shaped : Shaped program of) (index : FuncId) (answer : Answer) :
    Tells (widenAt program index of) answer ↔
      Tells of answer ∨ answer.func = index ∧ Finds program of answer := by
  obtain ⟨func, param, retained⟩ := answer
  rw [widenAt]
  split
  · next function found =>
      by_cases here : func = index
      · subst here
        obtain ⟨inside, rfl⟩ := List.getElem?_eq_some_iff.1 found
        have there : func < of.length := shaped.length ▸ inside
        have length : of[func].params.length = program.functions[func].params.length :=
          List.Forall₂.get shaped there inside
        have walked := @length_summarise program of program.functions[func]
        have summary : (of.modify func fun summary => ⟨List.zipWith ParamUse.widen
            summary.params (Walk.summarise program program.functions[func] of).params⟩)[func]? =
            some ⟨List.zipWith ParamUse.widen of[func].params
              (Walk.summarise program program.functions[func] of).params⟩ := by
          rw [List.getElem?_modify, List.getElem?_eq_getElem there]
          simp
        by_cases early : param < of[func].params.length
        · have early' : param <
              (Walk.summarise program program.functions[func] of).params.length := by omega
          have both : (List.zipWith ParamUse.widen of[func].params
              (Walk.summarise program program.functions[func] of).params)[param]? =
              some (of[func].params[param].widen
                (Walk.summarise program program.functions[func] of).params[param]) := by
            rw [List.getElem?_eq_getElem (by rw [List.length_zipWith]; omega),
              List.getElem_zipWith]
          rw [tells_of_summary summary both, ParamUse.tells_widen,
            tells_of_summary (List.getElem?_eq_getElem there) (List.getElem?_eq_getElem early)]
          refine or_congr_right ?_
          constructor
          · exact fun yes => ⟨rfl, _, found, _, List.getElem?_eq_getElem early', yes⟩
          · rintro ⟨-, function, found', use, used, yes⟩
            rw [← Option.some_inj.1 (found.symm.trans found'),
              List.getElem?_eq_getElem early', Option.some_inj] at used
            rwa [used]
        · constructor
          · rintro ⟨summary', found', use, used, -⟩
            rw [← Option.some_inj.1 (summary.symm.trans found')] at used
            have late : param < _ := (List.getElem?_eq_some_iff.1 used).1
            rw [List.length_zipWith] at late
            omega
          · rintro (⟨summary', found', use, used, -⟩ | ⟨-, function, found', use, used, -⟩)
            · rw [List.getElem?_eq_getElem there, Option.some_inj] at found'
              subst found'
              exact absurd (List.getElem?_eq_some_iff.1 used).1 early
            · rw [← Option.some_inj.1 (found.symm.trans found')] at used
              have late : param < _ := (List.getElem?_eq_some_iff.1 used).1
              omega
      · have same : (of.modify index fun summary => ⟨List.zipWith ParamUse.widen
            summary.params (Walk.summarise program function of).params⟩)[func]? =
            of[func]? := by
          rw [List.getElem?_modify]
          simp [Ne.symm here]
        rw [Tells, same]
        exact (or_iff_left fun both => here both.1).symm
  · next missing =>
      refine ⟨Or.inl, ?_⟩
      rintro (tells | ⟨rfl, function, found, -⟩)
      · exact tells
      · rw [missing] at found
        exact absurd found (by simp)

theorem Finds.more {known more : List Summary} (below : KnownBelow known more)
    {answer : Answer} (finds : Finds program known answer) : Finds program more answer := by
  obtain ⟨function, found, use, used, yes⟩ := finds
  obtain ⟨inside, rfl⟩ := List.getElem?_eq_some_iff.1 used
  have summaries := (summarise_below program function below).1
  have inside' := List.Forall₂.length_eq summaries ▸ inside
  have uses : ParamUse.Below _ _ := List.Forall₂.get summaries inside inside'
  exact ⟨function, found, _, List.getElem?_eq_getElem inside',
    ParamUse.below_iff.1 uses answer.retained yes⟩

theorem shaped_start (program : Program) : Shaped program (summariseStart program) := by
  rw [Shaped, summariseStart, List.forall₂_map_left_iff]
  exact List.forall₂_same.2 fun function _ => List.length_map _

theorem not_tells_start (program : Program) (answer : Answer) :
    ¬Tells (summariseStart program) answer := by
  rintro ⟨summary, found, use, used, yes⟩
  rw [summariseStart, List.getElem?_map, Option.map_eq_some_iff] at found
  obtain ⟨function, -, rfl⟩ := found
  rw [List.getElem?_map, Option.map_eq_some_iff] at used
  obtain ⟨ty, -, rfl⟩ := used
  rw [ite_self, ParamUse.tells] at yes
  exact absurd yes (by cases answer.retained <;> decide)

theorem inside_of_finds {answer : Answer}
    (found : ∃ known : Summaries program, Finds program known.of answer) :
    answer.func < program.functions.length := by
  obtain ⟨known, function, found, -⟩ := found
  exact (List.getElem?_eq_some_iff.1 found).1

/-- The functions and their walks, as places that find answers about themselves. -/
def reuse (program : Program) : Finding (Summaries program) Answer where
  places := program.functions.length
  knows := fun known answer => Tells known.of answer
  place := Answer.func
  finds := fun known answer => Finds program known.of answer
  visit := fun index known => ⟨widenAt program index known.of, known.shaped.widenAt index⟩
  start := ⟨summariseStart program, shaped_start program⟩
  inside := fun _ found => inside_of_finds found
  unknown := not_tells_start program
  raises := fun known more below answer finds =>
    finds.more ((knownBelow_iff known.shaped more.shaped).2 below)
  visited := fun index known answer => tells_widenAt known.shaped index answer

theorem visits_of (known : Summaries program) (count : Nat) :
    ((reuse program).visits count known).of =
      (List.range count).foldl (fun of index => widenAt program index of) known.of := by
  induction count with
  | zero => rfl
  | succ count ih =>
      rw [List.range_succ, List.foldl_append, ← ih]
      rfl

theorem round_of (known : Summaries program) :
    ((reuse program).round known).of = summariseRound program known.of :=
  visits_of known program.functions.length

theorem rounds_of (count : Nat) :
    ((reuse program).rounds count).of = (summariseRound program)^[count] (summariseStart program) := by
  induction count with
  | zero => rfl
  | succ count ih =>
      rw [Function.iterate_succ_apply', ← ih]
      exact round_of _

/-- Stopping at a round that moved nothing changes nothing. -/
theorem summariseRounds_eq (count : Nat) (of : List Summary) :
    summariseRounds program count of = (summariseRound program)^[count] of := by
  induction count generalizing of with
  | zero => rfl
  | succ count ih =>
      rw [summariseRounds, Function.iterate_succ_apply]
      by_cases rest : summariseRound program of = of
      · rw [if_pos rest, rest, Function.iterate_fixed rest]
      · rw [if_neg rest, ih]

theorem summarise_eq (program : Program) :
    summarise program = ((reuse program).rounds (program.functions.length + 1)).of := by
  rw [rounds_of, summarise, summariseRounds_eq]

/-- No function's walk, made again with these summaries, widens anything. -/
def FixedPoint (program : Program) (of : List Summary) : Prop :=
  ∀ index, index < program.functions.length → widenAt program index of = of

theorem forall₂_antisymm {α : Type} {below : α → α → Prop}
    (antisymm : ∀ first second, below first second → below second first → first = second)
    {left right : List α} (one : List.Forall₂ below left right)
    (other : List.Forall₂ below right left) : left = right := by
  refine List.ext_getElem one.length_eq fun index inside inside' => ?_
  exact antisymm _ _ (List.Forall₂.get one inside inside') (List.Forall₂.get other inside' inside)

theorem ParamUse.Below.antisymm (use other : ParamUse) (below : use.Below other)
    (above : other.Below use) : use = other := by
  obtain ⟨shared, retained⟩ := use
  obtain ⟨shared', retained'⟩ := other
  rw [ParamUse.mk.injEq]
  exact ⟨Bool.eq_iff_iff.2 ⟨below.1, above.1⟩, Bool.eq_iff_iff.2 ⟨below.2, above.2⟩⟩

theorem Summary.Below.antisymm (summary other : Summary) (below : summary.Below other)
    (above : other.Below summary) : summary = other :=
  congrArg Summary.mk (forall₂_antisymm ParamUse.Below.antisymm below above)

/-- The walks widen nothing where they find no answer that is not known. -/
theorem fixedPoint_iff (known : Summaries program) :
    FixedPoint program known.of ↔ (reuse program).Settled known := by
  constructor
  · rintro fixed answer finds
    have inside := (reuse program).inside answer ⟨known, finds⟩
    have widened := (tells_widenAt known.shaped answer.func answer).2 (Or.inr ⟨rfl, finds⟩)
    rwa [fixed answer.func inside] at widened
  · intro settled index _
    have less : KnownBelow (widenAt program index known.of) known.of := by
      rw [knownBelow_iff (known.shaped.widenAt index) known.shaped]
      intro answer tells
      rcases (tells_widenAt known.shaped index answer).1 tells with before | ⟨-, finds⟩
      · exact before
      · exact settled answer finds
    have more : KnownBelow known.of (widenAt program index known.of) := by
      rw [knownBelow_iff known.shaped (known.shaped.widenAt index)]
      exact fun answer tells => (tells_widenAt known.shaped index answer).2 (Or.inl tells)
    exact forall₂_antisymm Summary.Below.antisymm less more

/-- An answer has a derivation with so many turns: the walk over its function finds it from
answers that are derived too, those about a function before it with as many turns and all
others with fewer. -/
def Derived (program : Program) (turns : Nat) (answer : Answer) : Prop :=
  (reuse program).Derives turns answer

/-- What `summarise` answers is the least fixed point exactly when no answer needs a
derivation that goes back to the same or an earlier function more often than there are
functions. -/
theorem summarise_least_fixed_iff (program : Program) :
    (FixedPoint program (summarise program) ∧
      ∀ other, Shaped program other → FixedPoint program other →
        KnownBelow (summarise program) other) ↔
      ∀ answer, (∃ turns, Derived program turns answer) →
        Derived program (program.functions.length + 1) answer := by
  rw [summarise_eq, fixedPoint_iff, (reuse program).settled_rounds]
  refine and_iff_left fun other shaped fixed => ?_
  have settled := (fixedPoint_iff ⟨other, shaped⟩).1 fixed
  rw [knownBelow_iff (Summaries.shaped _) shaped]
  exact fun answer tells => (reuse program).rounds_least settled _ tells

end Rounds

/-! ## Three parameters in a ring -/

/-- A function that answers its first parameter, or calls itself with its parameters moved on
by one. -/
def rotating : Function where
  name := "rotating"
  params := [.str, .str, .str]
  ret := .str
  locals := [.str, .str, .str]
  body := .of (.if_ (.bool true) (.of (.local_ 0))
    (.of (.call 0 [.local_ 1, .local_ 2, .local_ 0] ⟨0, 0⟩)) .str)

def rotatingProgram : Program where
  layouts := []
  effects := []
  functions := [rotating]
  counted := fun _ missing => absurd missing List.not_mem_nil

/-- Two rounds do not come round three parameters. -/
theorem rotating_not_settled :
    ¬FixedPoint rotatingProgram (summarise rotatingProgram) := by
  intro fixed
  exact absurd (fixed 0 (by decide)) (by decide)

end Deed.Mir
